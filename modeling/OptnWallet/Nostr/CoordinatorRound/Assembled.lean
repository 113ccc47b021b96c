import OptnWallet.Library.Runs
import OptnWallet.Nostr.CoordinatorRound.Accepts
import OptnWallet.Nostr.Election

/-
  The transaction that a coordinator assembles.  Inputs are told apart by their text, and a
  credential covers an outpoint in either case of letters, so that one credential and one coin
  count for two inputs if the coin is spelled in two ways.

  Main declarations:
    * `Nostr.SpelledAlike`
    * `Nostr.AssembledOnce`
    * `Nostr.assembled_once`
-/

--- Assembled once

namespace OptnWallet.Nostr

open StagedUpdate

open Schnorr (Curve)

section Statements

variable (hexToBin : String → List UInt8)

/- The transaction id and the index of the coin. -/
def outpointOf (input : FusionInputRef) : List UInt8 × Int :=
  (hexToBin (toLowerCase input.prevTxid), input.prevIndex)

/- A coin is spelled in one way. -/
def SpelledAlike (inputs : List FusionInputRef) : Prop :=
  ∀ first ∈ inputs,
    ∀ second ∈ inputs,
      outpointOf hexToBin first = outpointOf hexToBin second → first.prevTxid = second.prevTxid

/- Components for what is assembled, each of which has a credential, and none of which is counted
   for two. -/
structure Credited (issued : List Fusion.Component) (tx : AssembledFusionTx)
    (inputs outputs : List Fusion.Component) : Prop where
  inputs_covered :
    List.Forall₂ (fun input component => ∃ salt, component = componentOfInput hexToBin input salt)
      tx.inputs inputs
  outputs_covered :
    List.Forall₂
      (fun output component => ∃ salt, component = componentOfOutput hexToBin output salt)
      tx.outputs outputs
  nodup : (inputs ++ outputs).Nodup
  issued : ∀ component ∈ inputs ++ outputs, component ∈ issued

structure AssembledOnce (state : CoordinatorRound) (tx : AssembledFusionTx) : Prop where
  outpoints : (tx.inputs.map (outpointOf hexToBin)).Nodup
  credited : ∃ inputs outputs, Credited hexToBin state.issued tx inputs outputs
  inputs_length : tx.inputs.length = state.expectedInputCount
  outputs_length : tx.outputs.length = state.expectedOutputCount
  issued_length : state.issued.length = state.expectedInputCount + state.expectedOutputCount

end Statements

--- Runs

variable {n : Nat} {Point : Type} [AddCommGroup Point] [Module (ZMod n) Point] [DecidableEq Point]

section Runs

variable (curve : Curve n Point) (hexToBin : String → List UInt8)
variable (sha256 : List UInt8 → Vector UInt8 32) (setup : Pedersen.Setup curve)
variable (params : CoordinatorParams)

/- Messages are those that the parser admits, and a request hides as many components as it asks for.
   -/
def Parses : CoordinatorEvent → Prop
  | .request _ _ _ request hidden => request.parses = true ∧ hidden.length = request.requests.length
  | .message _ _ _ message => message.parses = true
  | _ => True

/- What has a credential was issued one. -/
def Unforged (state : CoordinatorRound) : CoordinatorEvent → Prop
  | .message _ _ _ (.inputs refs sigs salts) => ∀ entry ∈ refs.zip (sigs.zip salts),
      CoordinatorRound.checkInput curve hexToBin sha256 params entry = .ok () →
        componentOfInput hexToBin entry.1 entry.2.2 ∈ state.issued
  | .message _ _ _ (.outputs batch) => ∀ output ∈ batch,
      Credentialed hexToBin curve sha256 params.context params.issuerPubkey output →
        componentOfOutput hexToBin output.output output.saltCommitment ∈ state.issued
  | _ => True

structure Arrives (state : CoordinatorRound) (event : CoordinatorEvent) : Prop where
  parses : Parses event
  unforged : Unforged curve hexToBin sha256 params state event

/- Inputs that come spell a coin as the others do. -/
def SpellsAlike (state : CoordinatorRound) : CoordinatorEvent → Prop
  | .message _ _ _ (.inputs refs _ _) => SpelledAlike hexToBin (state.inputPool params ++ refs)
  | _ => True

/- The states of the coordinator in its runs. -/
def Conducts (Admits : CoordinatorRound → CoordinatorEvent → Prop) : CoordinatorRound → Prop :=
  Runs.Reached (CoordinatorRound.step curve hexToBin sha256 setup params)
    (fun state => ∃ nullifiers, state = CoordinatorRound.start hexToBin params nullifiers) Admits

end Runs

--- Steps

variable {curve : Curve n Point} {hexToBin : String → List UInt8}
variable {sha256 : List UInt8 → Vector UInt8 32} {setup : Pedersen.Setup curve}
variable {params : CoordinatorParams} {state : CoordinatorRound}

/- The batch of outputs, as it was accepted. -/
structure BatchAccepted (curve : Curve n Point) (hexToBin : String → List UInt8)
    (sha256 : List UInt8 → Vector UInt8 32) (params : CoordinatorParams) (state : CoordinatorRound)
    (batch : List AuthorizedOnionOutput) : Prop where
  length_eq : batch.length = state.expectedOutputCount
  full : state.outputQuotaByPeer.length = params.participants.length
  seen : ∃ seen, CheckedOutputs hexToBin curve sha256 params.context params.issuerPubkey batch seen
  issued :
    ∀ output ∈ batch, componentOfOutput hexToBin output.output output.saltCommitment ∈ state.issued

/- What is counted has credentials, and the quotas are those that were issued. -/
structure Counted (curve : Curve n Point) (hexToBin : String → List UInt8)
    (sha256 : List UInt8 → Vector UInt8 32) (params : CoordinatorParams)
    (state : CoordinatorRound) : Prop where
  peers_nodup : state.credentialedPeers.Nodup
  peers_subset : state.credentialedPeers ⊆ params.participants
  inputQuota : state.inputQuotaByPeer.map Prod.fst = state.credentialedPeers
  outputQuota : state.outputQuotaByPeer.map Prod.fst = state.credentialedPeers
  issued_length : state.issued.length = state.expectedInputCount + state.expectedOutputCount
  valid : ∀ input ∈ state.inputPool params, validInput input = true
  issued :
    ∀ input ∈ state.inputPool params, ∃ salt, componentOfInput hexToBin input salt ∈ state.issued
  spelled : SpelledAlike hexToBin (state.inputPool params)
  one : state.anonymousOutputBatches.length ≤ 1
  batch :
    ∀ batch ∈ state.anonymousOutputBatches, BatchAccepted curve hexToBin sha256 params state batch

/- By induction over the items. -/
theorem mem_zipWith_of_mem {α β γ : Type} (f : α → β → γ) {items : List α} {others : List β}
    (hLength : others.length = items.length) {item : α} (hMem : item ∈ items) :
    ∃ other, f item other ∈ List.zipWith f items others := by
  induction items generalizing others with
  | nil => cases hMem
  | cons first items ih =>
    cases others with
    | nil => cases hLength
    | cons other others =>
      rcases List.mem_cons.mp hMem with rfl | hLater
      · exact ⟨other, List.mem_cons_self⟩
      · rcases ih (Nat.succ.inj hLength) hLater with ⟨other', hOther⟩
        exact ⟨other', List.mem_cons_of_mem _ hOther⟩

theorem counted_start (hOwn : SpelledAlike hexToBin params.myContribution.inputs)
    (nullifiers : Nullifiers) :
    Counted curve hexToBin sha256 params (CoordinatorRound.start hexToBin params nullifiers) := by
  have hPool :
      (CoordinatorRound.start hexToBin params nullifiers).inputPool params =
        params.myContribution.inputs :=
    List.append_nil _
  constructor
  · exact List.nodup_singleton _
  · intro peer hMem
    rw [List.mem_singleton.mp hMem]
    exact params.mem_participants
  · rfl
  · rfl
  · unfold CoordinatorRound.start CoordinatorRound.expectedInputCount
      CoordinatorRound.expectedOutputCount CoordinatorParams.ownComponents
    simp [params.inputSalts_length, params.outputSalts_length]
  · rw [hPool]
    exact params.inputs_valid
  · rw [hPool]
    intro input hMem
    rcases mem_zipWith_of_mem (componentOfInput hexToBin) params.inputSalts_length hMem with
      ⟨salt, hSalt⟩
    exact ⟨salt, List.mem_append_left _ hSalt⟩
  · rw [hPool]
    exact hOwn
  · exact Nat.zero_le 1
  · intro batch hMem
    cases hMem

section

variable (hCounted : Counted curve hexToBin sha256 params state)
include hCounted

/- The other fields do not matter. -/
theorem counted_of_same {next : CoordinatorRound}
    (hInputs : next.anonymousInputs = state.anonymousInputs)
    (hBatches : next.anonymousOutputBatches = state.anonymousOutputBatches)
    (hPeers : next.credentialedPeers = state.credentialedPeers)
    (hInputQuota : next.inputQuotaByPeer = state.inputQuotaByPeer)
    (hOutputQuota : next.outputQuotaByPeer = state.outputQuotaByPeer)
    (hIssued : next.issued = state.issued) : Counted curve hexToBin sha256 params next := by
  have hPool : next.inputPool params = state.inputPool params := by
    unfold CoordinatorRound.inputPool
    rw [hInputs]
  have hExpected : next.expectedInputCount = state.expectedInputCount := by
    unfold CoordinatorRound.expectedInputCount
    rw [hInputQuota]
  have hExpectedOut : next.expectedOutputCount = state.expectedOutputCount := by
    unfold CoordinatorRound.expectedOutputCount
    rw [hOutputQuota]
  constructor
  · rw [hPeers]
    exact hCounted.peers_nodup
  · rw [hPeers]
    exact hCounted.peers_subset
  · rw [hInputQuota, hPeers]
    exact hCounted.inputQuota
  · rw [hOutputQuota, hPeers]
    exact hCounted.outputQuota
  · rw [hIssued, hExpected, hExpectedOut]
    exact hCounted.issued_length
  · rw [hPool]
    exact hCounted.valid
  · rw [hPool, hIssued]
    exact hCounted.issued
  · rw [hPool]
    exact hCounted.spelled
  · rw [hBatches]
    exact hCounted.one
  · rw [hBatches]
    intro batch hMem
    have hBatch := hCounted.batch batch hMem
    constructor
    · rw [hExpectedOut]
      exact hBatch.length_eq
    · rw [hOutputQuota]
      exact hBatch.full
    · exact hBatch.seen
    · rw [hIssued]
      exact hBatch.issued

theorem counted_fail : Counted curve hexToBin sha256 params (state.fail params) :=
  counted_of_same hCounted rfl rfl rfl rfl rfl rfl

theorem counted_noted (nonce : String) : Counted curve hexToBin sha256 params (state.noted nonce) :=
  counted_of_same hCounted rfl rfl rfl rfl rfl rfl

end

/- When a transaction is assembled, and what is left otherwise. -/
structure AssemblesNow (params : CoordinatorParams) (state : CoordinatorRound)
    (draft : AssembledFusionTx) : Prop where
  outputs : state.outputPool ≠ []
  inputs : (state.inputPool params).length = state.expectedInputCount
  assembled :
    assembleFusionTx [{ inputs := state.inputPool params, outputs := state.outputPool }] = .ok draft

theorem tryAssemble_cases (params : CoordinatorParams) (state : CoordinatorRound) :
    state.tryAssemble params = state ∨
      state.tryAssemble params = state.fail params ∨
      ∃ draft,
        AssemblesNow params state draft ∧
          state.tryAssemble params = { state with assembled := some draft } := by
  unfold CoordinatorRound.tryAssemble
  dsimp only
  split
  · exact Or.inl rfl
  · split
    · exact Or.inl rfl
    · rename_i hReady
      rw [Bool.not_eq_false] at hReady
      split
      · exact Or.inl rfl
      · rename_i hFull
        rw [not_or, not_not, not_not] at hFull
        split
        · exact Or.inl rfl
        · split
          · exact Or.inr (Or.inl rfl)
          · rename_i draft hDraft
            split
            · exact Or.inr (Or.inl rfl)
            · refine Or.inr (Or.inr ⟨draft, ⟨?_, hFull.2, hDraft⟩, rfl⟩)
              intro hNone
              unfold CoordinatorRound.outputsReady at hReady
              rw [hNone] at hReady
              simp at hReady

variable (hCounted : Counted curve hexToBin sha256 params state)

include hCounted in
theorem counted_tryAssemble : Counted curve hexToBin sha256 params (state.tryAssemble params) := by
  rcases tryAssemble_cases params state with hSame | hFail | ⟨draft, -, hDraft⟩
  · rw [hSame]
    exact hCounted
  · rw [hFail]
    exact counted_fail hCounted
  · rw [hDraft]
    exact counted_of_same hCounted rfl rfl rfl rfl rfl rfl

variable {sender : String}

section

variable (hCounted : Counted curve hexToBin sha256 params state)
include hCounted

/- Whoever is not credentialed is one more than those that are. -/
theorem lt_of_not_credentialed (hSender : sender ∈ params.participants)
    (hNew : sender ∉ state.credentialedPeers) :
    state.outputQuotaByPeer.length < params.participants.length := by
  have hLength : state.outputQuotaByPeer.length = state.credentialedPeers.length := by
    rw [← hCounted.outputQuota, List.length_map]
  have hSubperm : (sender :: state.credentialedPeers).Subperm params.participants := by
    apply List.Nodup.subperm
    · exact List.nodup_cons.mpr ⟨hNew, hCounted.peers_nodup⟩
    · intro peer hMem
      rcases List.mem_cons.mp hMem with rfl | hOld
      · exact hSender
      · exact hCounted.peers_subset hOld
  rw [hLength]
  exact hSubperm.length_le

/- Credentials are issued to a peer that had none. -/
theorem counted_request (hSender : sender ∈ params.others) (request : CredentialRequestMessage)
    {hidden : List Fusion.Component} (hHidden : hidden.length = request.requests.length) :
    Counted curve hexToBin sha256 params
      (state.handleCredentialRequest curve hexToBin setup params sender request hidden) := by
  unfold CoordinatorRound.handleCredentialRequest
  split
  · exact counted_fail hCounted
  rename_i hNew
  split
  · exact counted_fail hCounted
  rename_i hCounts
  rw [not_or, not_not] at hCounts
  split
  · exact counted_of_same hCounted rfl rfl rfl rfl rfl rfl
  split
  · exact counted_fail hCounted
  split
  · exact counted_of_same hCounted rfl rfl rfl rfl rfl rfl
  split
  · exact counted_fail hCounted
  have hPeer : sender ∈ params.participants := (List.mem_filter.mp hSender).1
  constructor
  · exact List.nodup_append.mpr
        ⟨hCounted.peers_nodup, List.nodup_singleton _,
          fun a hA b hB hSame => hNew
              (by
                rw [← List.mem_singleton.mp hB, ← hSame]
                exact hA)⟩
  · intro peer hMem
    rcases List.mem_append.mp hMem with hOld | hHere
    · exact hCounted.peers_subset hOld
    · rw [List.mem_singleton.mp hHere]
      exact hPeer
  · dsimp only
    rw [List.map_append, hCounted.inputQuota]
    rfl
  · dsimp only
    rw [List.map_append, hCounted.outputQuota]
    rfl
  · have hIssued := hCounted.issued_length
    unfold CoordinatorRound.expectedInputCount CoordinatorRound.expectedOutputCount at hIssued ⊢
    simp only [List.length_append, List.map_append, List.map_cons, List.map_nil, List.sum_append,
      List.sum_cons, List.sum_nil]
    omega
  · exact hCounted.valid
  · intro input hMem
    rcases hCounted.issued input hMem with ⟨salt, hSalt⟩
    exact ⟨salt, List.mem_append_left _ hSalt⟩
  · exact hCounted.spelled
  · exact hCounted.one
  · intro batch hMem
    have hFull := (hCounted.batch batch hMem).full
    have hLess := lt_of_not_credentialed hCounted hPeer hNew
    omega

/- Inputs that are accepted have credentials. -/
theorem counted_inputs {refs : List FusionInputRef} {sigs salts : List String}
    (hParses : (RoundMessage.inputs refs sigs salts).parses = true)
    (hUnforged : ∀ entry ∈ refs.zip (sigs.zip salts),
      CoordinatorRound.checkInput curve hexToBin sha256 params entry = .ok () →
        componentOfInput hexToBin entry.1 entry.2.2 ∈ state.issued)
    (hAlike : SpelledAlike hexToBin (state.inputPool params ++ refs)) {next : CoordinatorRound}
    (hAccepted : state.acceptInputs curve hexToBin sha256 params refs sigs salts = .ok next) :
    Counted curve hexToBin sha256 params next ∧ next.assembled = state.assembled := by
  unfold CoordinatorRound.acceptInputs at hAccepted
  split at hAccepted
  · cases hAccepted
  rename_i hLengths
  rw [not_or, not_not, not_not] at hLengths
  split at hAccepted
  · cases hAccepted
  rw [bind_eq_ok_iff] at hAccepted
  rcases hAccepted with ⟨checked, hChecked, hRest⟩
  rw [bind_eq_ok_iff] at hRest
  rcases hRest with ⟨credentialed, hAdded, hNext⟩
  cases hNext
  refine ⟨?_, rfl⟩
  have hPool :
      state.inputPool params ++ refs =
        params.myContribution.inputs ++ (state.anonymousInputs ++ refs) := by
    unfold CoordinatorRound.inputPool
    rw [List.append_assoc]
  constructor
  · exact hCounted.peers_nodup
  · exact hCounted.peers_subset
  · exact hCounted.inputQuota
  · exact hCounted.outputQuota
  · exact hCounted.issued_length
  · unfold CoordinatorRound.inputPool
    dsimp only
    rw [← hPool]
    intro input hMem
    rcases List.mem_append.mp hMem with hOld | hNew
    · exact hCounted.valid input hOld
    · unfold RoundMessage.parses validArray at hParses
      simp only [Bool.and_eq_true, List.all_eq_true] at hParses
      exact hParses.1.1.1.1.2 input hNew
  · unfold CoordinatorRound.inputPool
    dsimp only
    rw [← hPool]
    intro input hMem
    rcases List.mem_append.mp hMem with hOld | hNew
    · exact hCounted.issued input hOld
    · have hFirst : (refs.zip (sigs.zip salts)).map Prod.fst = refs := by
        apply List.map_fst_zip
        rw [List.length_zip]
        omega
      rw [← hFirst] at hNew
      rcases List.mem_map.mp hNew with ⟨entry, hEntry, rfl⟩
      rcases exists_of_mapM hChecked hEntry with ⟨done, hDone⟩
      exact ⟨_, hUnforged entry hEntry hDone⟩
  · unfold CoordinatorRound.inputPool
    dsimp only
    rw [← hPool]
    exact hAlike
  · exact hCounted.one
  · intro batch hMem
    have hBatch := hCounted.batch batch hMem
    exact
      { length_eq := hBatch.length_eq
        full := hBatch.full
        seen := hBatch.seen
        issued := hBatch.issued }

end

variable {batch : List AuthorizedOnionOutput}

/- The one batch of outputs. -/
include hCounted in
theorem counted_batch {serials : List String}
    (hFull : state.outputQuotaByPeer.length = params.participants.length)
    (hNone : state.anonymousOutputBatches.length = 0)
    (hVerify :
        verifyAuthorizedOutputBatch hexToBin curve sha256 batch state.expectedOutputCount
            params.issuerPubkey params.context = .ok serials)
    (hUnforged : ∀ output ∈ batch,
        Credentialed hexToBin curve sha256 params.context params.issuerPubkey output →
          componentOfOutput hexToBin output.output output.saltCommitment ∈ state.issued)
    (nullifiers : Nullifiers) :
    Counted curve hexToBin sha256 params
      { state with
        nullifiers
        anonymousOutputBatches := state.anonymousOutputBatches ++ [batch] } := by
  have hBatch := verifyAuthorizedOutputBatch_spec hVerify
  rcases hBatch.seen with ⟨seen, hSeen⟩
  rw [List.length_eq_zero_iff] at hNone
  rw [hNone]
  constructor
  · exact hCounted.peers_nodup
  · exact hCounted.peers_subset
  · exact hCounted.inputQuota
  · exact hCounted.outputQuota
  · exact hCounted.issued_length
  · exact hCounted.valid
  · exact hCounted.issued
  · exact hCounted.spelled
  · exact le_refl 1
  · intro other hMem
    rw [List.mem_singleton.mp hMem]
    exact
      { length_eq := hBatch.length_eq
        full := hFull
        seen := ⟨seen, hSeen⟩
        issued := fun output hOutput =>
          hUnforged output hOutput (hSeen.credentialed output hOutput) }

/- A step leaves what is counted, ends the round, or goes on to assemble. -/
theorem step_cases (setup : Pedersen.Setup curve) {event : CoordinatorEvent}
    (hCounted : Counted curve hexToBin sha256 params state)
    (hArrives : Arrives curve hexToBin sha256 params state event)
    (hAlike : SpellsAlike hexToBin params state event) :
    ∃ mid,
    Counted curve hexToBin sha256 params mid ∧
      (state.step curve hexToBin sha256 setup params event = mid ∧ mid.assembled = state.assembled ∨
        state.step curve hexToBin sha256 setup params event = mid.tryAssemble params ∧
          mid.assembled = state.assembled) := by
  rcases hArrives with ⟨hParses, hUnforged⟩
  have hStays : ∀ nonce, Counted curve hexToBin sha256 params (state.noted nonce) :=
    counted_noted hCounted
  unfold CoordinatorRound.step
  cases event with
  | request session sender nonce request hidden =>
    dsimp only
    split
    · split
      · rename_i hSender
        refine ⟨_, counted_request (hStays nonce) hSender request hParses.2, Or.inl ⟨rfl, ?_⟩⟩
        unfold CoordinatorRound.handleCredentialRequest
        repeat' split
        all_goals rfl
      · exact ⟨_, hStays nonce, Or.inl ⟨rfl, rfl⟩⟩
    · exact ⟨state, hCounted, Or.inl ⟨rfl, rfl⟩⟩
  | injected =>
    dsimp only
    split
    · exact ⟨state, hCounted, Or.inl ⟨rfl, rfl⟩⟩
    · refine ⟨_, ?_, Or.inr ⟨rfl, rfl⟩⟩
      exact counted_of_same hCounted rfl rfl rfl rfl rfl rfl
  | stopped =>
    dsimp only
    split
    · exact ⟨state, hCounted, Or.inl ⟨rfl, rfl⟩⟩
    · exact ⟨_, counted_fail hCounted, Or.inl ⟨rfl, rfl⟩⟩
  | message session sender nonce message =>
    dsimp only
    split
    · cases message with
      | componentsReady =>
        unfold CoordinatorRound.onMessage
        dsimp only
        split
        · refine ⟨_, ?_, Or.inr ⟨rfl, rfl⟩⟩
          exact counted_of_same (hStays nonce) rfl rfl rfl rfl rfl rfl
        · exact ⟨_, hStays nonce, Or.inl ⟨rfl, rfl⟩⟩
      | abort reason =>
        unfold CoordinatorRound.onMessage
        dsimp only
        split
        · exact ⟨_, counted_fail (hStays nonce), Or.inl ⟨rfl, rfl⟩⟩
        · exact ⟨_, hStays nonce, Or.inl ⟨rfl, rfl⟩⟩
      | inputs refs sigs salts =>
        unfold CoordinatorRound.onMessage
        dsimp only
        split
        · exact ⟨_, counted_fail (hStays nonce), Or.inl ⟨rfl, rfl⟩⟩
        · rename_i next hNext
          have hBoth := counted_inputs (hStays nonce) hParses hUnforged hAlike hNext
          exact ⟨next, hBoth.1, Or.inr ⟨rfl, hBoth.2⟩⟩
      | outputs batch =>
        unfold CoordinatorRound.onMessage CoordinatorRound.onOutputs
        dsimp only
        split
        · exact ⟨_, hStays nonce, Or.inl ⟨rfl, rfl⟩⟩
        split
        · exact ⟨_, counted_fail (hStays nonce), Or.inl ⟨rfl, rfl⟩⟩
        rename_i hRight
        rw [not_or, not_or, not_or, not_not, not_not] at hRight
        split
        · exact ⟨_, counted_fail (hStays nonce), Or.inl ⟨rfl, rfl⟩⟩
        rename_i serials hVerify
        split
        · exact ⟨_, counted_fail (hStays nonce), Or.inl ⟨rfl, rfl⟩⟩
        · refine ⟨_, counted_batch (hStays nonce) hRight.2.1 hRight.2.2.1 hVerify hUnforged _,
            Or.inr ⟨rfl, rfl⟩⟩
    · exact ⟨state, hCounted, Or.inl ⟨rfl, rfl⟩⟩

theorem counted_of_conducts (hOwn : SpelledAlike hexToBin params.myContribution.inputs)
    (hConducts :
        Conducts curve hexToBin sha256 setup params
          (fun state event => Arrives curve hexToBin sha256 params state event ∧
              SpellsAlike hexToBin params state event) state) :
    Counted curve hexToBin sha256 params state := by
  apply Runs.reached_invariant _ _ hConducts
  · intro state hStart
    rcases hStart with ⟨nullifiers, rfl⟩
    exact counted_start hOwn nullifiers
  · intro state event hCounted hAdmitted
    rcases step_cases setup hCounted hAdmitted.1 hAdmitted.2 with
      ⟨mid, hMid, ⟨hStep, -⟩ | ⟨hStep, -⟩⟩
    · rw [hStep]
      exact hMid
    · rw [hStep]
      exact counted_tryAssemble hMid

--- The transaction

/- Coins with different texts are different coins. -/
theorem outpoints_nodup {inputs : List FusionInputRef} (hAlike : SpelledAlike hexToBin inputs)
    (hKeys : (inputs.map inputKey).Nodup) : (inputs.map (outpointOf hexToBin)).Nodup := by
  unfold List.Nodup at hKeys ⊢
  rw [List.pairwise_map] at hKeys ⊢
  refine hKeys.imp_of_mem ?_
  intro first second hFirst hSecond hApart hSame
  apply hApart
  have hTxid := hAlike first hFirst second hSecond hSame
  have hIndex : first.prevIndex = second.prevIndex := (Prod.mk.inj hSame).2
  unfold inputKey
  rw [hTxid, hIndex]

theorem index_of_validInput {input : FusionInputRef} (hValid : validInput input = true) :
    0 ≤ input.prevIndex ∧ input.prevIndex ≤ 0xffffffff := by
  unfold validInput isSafeIntegerIn at hValid
  simp only [Bool.and_eq_true, decide_eq_true_eq] at hValid
  rcases hValid with ⟨⟨⟨-, ⟨-, hNonneg⟩, hLe⟩, -⟩, -⟩
  exact ⟨hNonneg, hLe⟩

/- A component of an input names its outpoint. -/
theorem outpointOf_of_component {first second : FusionInputRef} (hFirst : validInput first = true)
    (hSecond : validInput second = true) {salt salt' : String}
    (hSame : componentOfInput hexToBin first salt = componentOfInput hexToBin second salt') :
    outpointOf hexToBin first = outpointOf hexToBin second := by
  unfold componentOfInput inputComponent at hSame
  simp only [Fusion.Component.mk.injEq, Option.some.injEq, Fusion.ComponentPart.input.injEq,
    Fusion.InputComponent.mk.injEq, List.reverse_inj] at hSame
  rcases hSame with ⟨-, hTxid, hIndex, -⟩
  rcases index_of_validInput hFirst with ⟨hNonneg, hLe⟩
  rcases index_of_validInput hSecond with ⟨hNonneg', hLe'⟩
  have hLt : first.prevIndex.toNat < UInt32.size := by
    change _ < 4294967296
    omega
  have hLt' : second.prevIndex.toNat < UInt32.size := by
    change _ < 4294967296
    omega
  have hNumbers := congrArg UInt32.toNat hIndex
  rw [UInt32.toNat_ofNat_of_lt' hLt, UInt32.toNat_ofNat_of_lt' hLt'] at hNumbers
  have hSameIndex : first.prevIndex = second.prevIndex := by omega
  unfold outpointOf
  rw [hTxid, hSameIndex]

/- The hash that a credential covers is that of the component. -/
theorem outputHash_eq {context : FusionCredentialContext} {output : FusionOutputRef}
    {serial salt msgHex : String}
    (hHash : outputCredentialMessageHashHex hexToBin sha256 context output serial salt = .ok msgHex)
      :
    msgHex = hexString
        (sha256
          (Fusion.Schema.encodeComponent (componentOfOutput hexToBin output salt))).toList := by
  unfold outputCredentialMessageHashHex outputCredentialMessageHash outputComponentBlindMessage
    at hHash
  cases
    hBytes :
      encodeOutputComponent hexToBin
        { scriptHex := output.script
          amount := output.value
          saltCommitmentHex := salt } with
  | error e =>
    rw [hBytes] at hHash
    cases hHash
  | ok bytes =>
    rw [hBytes] at hHash
    have hEncoded := ((encodeOutputComponent_eq_ok_iff hexToBin).mp hBytes).2
    unfold componentBlindMessageHash at hHash
    dsimp only [bind, Except.bind] at hHash
    split at hHash
    · cases hHash
    split at hHash
    · cases hHash
    · cases hHash
      rw [hEncoded]
      rfl

/- Outputs of a batch have different components. -/
theorem eq_of_component {seen : SeenOutputs}
    (hSeen : CheckedOutputs hexToBin curve sha256 params.context params.issuerPubkey batch seen)
    {first second : AuthorizedOnionOutput} (hFirst : first ∈ batch) (hSecond : second ∈ batch)
    (hSame :
        componentOfOutput hexToBin first.output first.saltCommitment =
          componentOfOutput hexToBin second.output second.saltCommitment) : first = second := by
  let hashOf : AuthorizedOnionOutput → String :=
    fun output => hexString
        (sha256
          (Fusion.Schema.encodeComponent
            (componentOfOutput hexToBin output.output output.saltCommitment))).toList
  have hHashes : seen.componentHashes.reverse.map id = batch.map hashOf :=
    map_eq_of_mapM (fun _ _ hHash => outputHash_eq hHash) hSeen.hashes
  have hNodup : (batch.map hashOf).Nodup := by
    rw [← hHashes, List.map_id]
    exact List.nodup_reverse.mpr hSeen.hashes_nodup
  apply List.inj_on_of_nodup_map hNodup hFirst hSecond
  dsimp only [hashOf]
  rw [hSame]

theorem outputs_nodup {seen : SeenOutputs}
    (hSeen : CheckedOutputs hexToBin curve sha256 params.context params.issuerPubkey batch seen) :
    (batch.map AuthorizedOnionOutput.output).Nodup := by
  have hIds := hSeen.outputIds_nodup
  unfold List.Nodup at hIds ⊢
  rw [List.pairwise_map] at hIds ⊢
  refine hIds.imp ?_
  intro first second hApart hSame
  apply hApart
  have hScript := congrArg FusionOutputRef.script hSame
  have hValue := congrArg FusionOutputRef.value hSame
  unfold AuthorizedOnionOutput.output at hScript hValue
  dsimp only at hScript hValue
  unfold outputId
  rw [hScript, hValue]

theorem forall₂_map_right {α β : Type} {R : α → β → Prop} {f : α → β} {items : List α}
    (hAll : ∀ item ∈ items, R item (f item)) : List.Forall₂ R items (items.map f) := by
  rw [List.forall₂_map_right_iff, List.forall₂_same]
  exact hAll

/- A transaction of the pool and of the one batch. -/
include hCounted in
theorem credited_of_counted (hBatch : BatchAccepted curve hexToBin sha256 params state batch)
    {tx : AssembledFusionTx} (hInputs : tx.inputs.Perm (state.inputPool params))
    (hOutputs : tx.outputs.Perm (batch.map AuthorizedOnionOutput.output))
    (hOutpoints : (tx.inputs.map (outpointOf hexToBin)).Nodup) :
    ∃ inputs outputs, Credited hexToBin state.issued tx inputs outputs := by
  rcases hBatch.seen with ⟨seen, hSeen⟩
  have hIssued :
      ∀ input ∈ tx.inputs, ∃ salt, componentOfInput hexToBin input salt ∈ state.issued := by
    intro input hMem
    exact hCounted.issued input (hInputs.mem_iff.mp hMem)
  have hIssuedOut : ∀ output ∈ tx.outputs, ∃ entry ∈ batch, entry.output = output := by
    intro output hMem
    exact List.mem_map.mp (hOutputs.mem_iff.mp hMem)
  have hNonempty : Nonempty AuthorizedOnionOutput :=
    ⟨{ script := ""
       value := 0
       credentialSerial := ""
       credentialSig := ""
       saltCommitment := "" }⟩
  choose! salt hSalt using hIssued
  choose! entry hEntry hOutput using hIssuedOut
  let inputOf : FusionInputRef → Fusion.Component :=
    fun input => componentOfInput hexToBin input (salt input)
  let outputOf : FusionOutputRef → Fusion.Component :=
    fun output => componentOfOutput hexToBin output (entry output).saltCommitment
  refine ⟨tx.inputs.map inputOf, tx.outputs.map outputOf, ?_, ?_, ?_, ?_⟩
  · exact forall₂_map_right (fun input _ => ⟨_, rfl⟩)
  · exact forall₂_map_right (fun output _ => ⟨_, rfl⟩)
  · apply List.nodup_append.mpr
    refine ⟨?_, ?_, ?_⟩
    · apply List.Nodup.map_on
      · intro first hFirst second hSecond hSame
        have hOutpoint :=
          outpointOf_of_component (hCounted.valid first (hInputs.mem_iff.mp hFirst))
            (hCounted.valid second (hInputs.mem_iff.mp hSecond)) hSame
        exact List.inj_on_of_nodup_map hOutpoints hFirst hSecond hOutpoint
      · exact List.Nodup.of_map _ hOutpoints
    · apply List.Nodup.map_on
      · intro first hFirst second hSecond hSame
        have hEntries : entry first = entry second := by
          apply eq_of_component hSeen (hEntry first hFirst) (hEntry second hSecond)
          rw [hOutput first hFirst, hOutput second hSecond]
          exact hSame
        rw [← hOutput first hFirst, hEntries, hOutput second hSecond]
      · exact hOutputs.nodup_iff.mpr (outputs_nodup hSeen)
    · intro component hIn other hOut hSame
      rcases List.mem_map.mp hIn with ⟨input, -, rfl⟩
      rcases List.mem_map.mp hOut with ⟨output, -, rfl⟩
      have hKind := congrArg Fusion.Component.component hSame
      cases hKind
  · intro component hMem
    rcases List.mem_append.mp hMem with hIn | hOut
    · rcases List.mem_map.mp hIn with ⟨input, hInput, rfl⟩
      exact hSalt input hInput
    · rcases List.mem_map.mp hOut with ⟨output, hMem', rfl⟩
      have hHere := hBatch.issued (entry output) (hEntry output hMem')
      rw [hOutput output hMem'] at hHere
      exact hHere

include hCounted in
theorem assembledOnce_of_assembles {tx : AssembledFusionTx} (hNow : AssemblesNow params state tx) :
    AssembledOnce hexToBin { state with assembled := some tx } tx := by
  have hSpec := assembleFusionTx_spec hNow.assembled
  rw [List.flatMap_singleton, List.flatMap_singleton] at hSpec
  rcases hSpec with ⟨hKeys, hInputs, hOutputs⟩
  have hOne : ∃ batch, state.anonymousOutputBatches = [batch] := by
    have hLe := hCounted.one
    have hSome := hNow.outputs
    unfold CoordinatorRound.outputPool at hSome
    cases hBatches : state.anonymousOutputBatches with
    | nil =>
      rw [hBatches] at hSome
      exact absurd rfl hSome
    | cons batch rest =>
      rw [hBatches, List.length_cons] at hLe
      have hNil : rest = [] := List.eq_nil_of_length_eq_zero (by omega)
      exact ⟨batch, by rw [hNil]⟩
  rcases hOne with ⟨batch, hBatches⟩
  have hBatch := hCounted.batch batch (by rw [hBatches]; exact List.mem_singleton.mpr rfl)
  have hPool : state.outputPool = batch.map AuthorizedOnionOutput.output := by
    unfold CoordinatorRound.outputPool
    rw [hBatches]
    simp
  dsimp only at hInputs hOutputs
  rw [hPool] at hOutputs
  have hAlike : SpelledAlike hexToBin tx.inputs := by
    intro first hFirst second hSecond
    exact hCounted.spelled first (hInputs.mem_iff.mp hFirst) second (hInputs.mem_iff.mp hSecond)
  have hOutpoints := outpoints_nodup hAlike hKeys
  constructor
  · exact hOutpoints
  · exact credited_of_counted hCounted hBatch hInputs hOutputs hOutpoints
  · exact hInputs.length_eq.trans hNow.inputs
  · rw [hOutputs.length_eq, List.length_map]
    exact hBatch.length_eq
  · exact hCounted.issued_length

/- Whenever a transaction is assembled, in runs where a coin is spelled in one way. -/
theorem assembled_once (hOwn : SpelledAlike hexToBin params.myContribution.inputs)
    (hConducts :
      Conducts curve hexToBin sha256 setup params
        (fun state event => Arrives curve hexToBin sha256 params state event ∧
            SpellsAlike hexToBin params state event) state) {event : CoordinatorEvent}
    (hArrives : Arrives curve hexToBin sha256 params state event)
    (hAlike : SpellsAlike hexToBin params state event) (hBefore : state.assembled = none)
    {tx : AssembledFusionTx}
    (hAfter : (state.step curve hexToBin sha256 setup params event).assembled = some tx) :
    AssembledOnce hexToBin (state.step curve hexToBin sha256 setup params event) tx := by
  have hCounted := counted_of_conducts hOwn hConducts
  rcases step_cases setup hCounted hArrives hAlike with ⟨mid, hMid, ⟨hStep, hSame⟩ | ⟨hStep, hSame⟩⟩
  · rw [hStep, hSame, hBefore] at hAfter
    cases hAfter
  · rw [hStep] at hAfter ⊢
    rcases tryAssemble_cases params mid with hStays | hFail | ⟨draft, hNow, hDraft⟩
    · rw [hStays, hSame, hBefore] at hAfter
      cases hAfter
    · rw [hFail] at hAfter
      have hNone : mid.assembled = some tx := hAfter
      rw [hSame, hBefore] at hNone
      cases hNone
    · rw [hDraft] at hAfter ⊢
      cases hAfter
      exact assembledOnce_of_assembles hMid hNow

--- Two spellings

open Fusion (sevenSetup wideSeven)
open Schnorr (sevenEncode sevenSha256 sevenSignature)

/- Hashes of components tell them apart, and challenges, which are hashes of 97 bytes, are five. -/
def sampleHash (bytes : List UInt8) : Vector UInt8 32 :=
  if bytes.length = 97 then Rpa.scalarBytes 5
  else Rpa.scalarBytes (bytes.map UInt8.toNat).sum

def sampleCoin (digit : Char) : FusionInputRef :=
  { prevTxid := sampleKey digit
    prevIndex := 0
    value := 10000
    pubkey := String.ofList ('0' :: '2' :: List.replicate 64 '1') }

def sampleOutput (value : Int) (serial : Char) : AuthorizedOnionOutput :=
  { sampleAuthorized serial with value }

variable {digit : Char}

theorem isHexOf_sampleKey (hHex : isHexChar digit = true) :
    isHexOf 64 (sampleKey digit) = true := by
  unfold sampleKey
  rw [isHexOf_ofList, Bool.and_eq_true, decide_eq_true_eq, List.all_eq_true]
  refine ⟨List.length_replicate, ?_⟩
  intro c hMem
  rw [List.eq_of_mem_replicate hMem]
  exact hHex

theorem valid_sampleCoin (hHex : isHexChar digit = true) :
    validInput (sampleCoin digit) = true := by
  have hTxid := isHexOf_sampleKey hHex
  have hPubkey : isCompressedPubkey (sampleCoin digit).pubkey = true := by
    unfold isCompressedPubkey sampleCoin
    dsimp only
    rw [String.length_ofList, String.toList_ofList]
    decide
  unfold validInput
  rw [hPubkey]
  unfold sampleCoin
  dsimp only
  rw [hTxid]
  decide

theorem sampleParticipants_nodup : ["a", "b", "c"].Nodup := by
  decide

theorem sampleCoin_valid : ∀ input ∈ [sampleCoin 'a'], validInput input = true := by
  intro input hMem
  rw [List.mem_singleton.mp hMem]
  exact valid_sampleCoin (by decide)

def sampleConductor : CoordinatorParams :=
  { myPubkey := "a"
    participants := ["a", "b", "c"]
    session := "s"
    network := "chipnet"
    tier := 10000
    feerate := 1000
    issuerPubkey := hexString (sevenEncode ((3 : Nat) : ZMod 7)).toList
    myContribution := { inputs := [sampleCoin 'a'], outputs := [(sampleOutput 9700 '1').output] }
    inputSalts := [sampleKey '5']
    outputSalts := [sampleKey '5']
    participants_nodup := sampleParticipants_nodup
    mem_participants := List.mem_cons_self
    inputSalts_length := rfl
    outputSalts_length := rfl
    inputs_valid := sampleCoin_valid }

def sampleCommitment (last : UInt8) : String := hexString (4 :: List.replicate 63 0 ++ [last])

def sampleScalar (last : UInt8) : String := hexString (List.replicate 31 0 ++ [last])

/- The first commitment is to the nonce, and the others are to nothing. -/
def sampleRequest (base inputCount : Nat) : CredentialRequestMessage :=
  let commitments := sampleCommitment 1 :: List.replicate inputCount (sampleCommitment 0)
  let rows := commitments.zipIdx base
  { inputCount
    outputCount := 1
    requests := rows.map (fun row => (row.2, sampleScalar 0))
    componentCommitments :=
      rows.map
        (fun row =>
          { index := row.2, saltedComponentHash := sampleScalar 0, amountCommitment := row.1 })
    amountCommitments := commitments
    pedersenTotalNonce := sampleScalar 1
    excessFee := 0 }

def sampleComponent (digit : Char) : Fusion.Component :=
  componentOfInput sampleHexToBin (sampleCoin digit) (sampleKey '5')

def sampleHidden (digits : List Char) (output : AuthorizedOnionOutput) : List Fusion.Component :=
  digits.map sampleComponent ++ [componentOfOutput sampleHexToBin output.output (sampleKey '5')]

def sampleInputs (digits : List Char) : RoundMessage :=
  .inputs (digits.map sampleCoin) (digits.map (fun _ => (sampleAuthorized '1').credentialSig))
    (digits.map (fun _ => sampleKey '5'))

def sampleBatch : List AuthorizedOnionOutput :=
  [sampleOutput 9700 '1', sampleOutput 14501 '2', sampleOutput 14502 '3']

theorem parses_sampleRequest :
    (sampleRequest 24 2).parses = true ∧ (sampleRequest 48 1).parses = true := by
  have hOne : isUncompressedPoint (sampleCommitment 1) = true := by
    unfold isUncompressedPoint sampleCommitment hexString
    rw [isHexOf_ofList, String.toList_ofList]
    decide +kernel
  have hNone : isUncompressedPoint (sampleCommitment 0) = true := by
    unfold isUncompressedPoint sampleCommitment hexString
    rw [isHexOf_ofList, String.toList_ofList]
    decide +kernel
  have hZero : isHexOf 64 (sampleScalar 0) = true := by
    unfold sampleScalar hexString
    rw [isHexOf_ofList]
    decide +kernel
  have hNonce : isHexOf 64 (sampleScalar 1) = true := by
    unfold sampleScalar hexString
    rw [isHexOf_ofList]
    decide +kernel
  unfold CredentialRequestMessage.parses sampleRequest validArray validCredentialRequestSlot
    validInitialComponentCommitment
  simp only [List.replicate, List.zipIdx, List.map, List.all, List.zip, List.zipWith, hOne, hNone,
    hZero, hNonce, eq_self, decide_true]
  exact ⟨rfl, rfl⟩

theorem balance_sampleRequest (base : Nat) {inputCount : Nat}
    (hCount : inputCount = 1 ∨ inputCount = 2) :
    pedersenBalanceHolds sampleHexToBin sevenSetup (sampleRequest base inputCount).amountCommitments
        (sampleRequest base inputCount).excessFee (sampleRequest base inputCount).pedersenTotalNonce
        = true := by
  have hRead := sampleHexToBin_reads.displayed
  have hTexts :
      (sampleRequest base inputCount).amountCommitments.map sampleHexToBin =
        (4 :: List.replicate 63 0 ++ [1]) ::
          List.replicate inputCount (4 :: List.replicate 63 0 ++ [0]) := by
    unfold sampleRequest sampleCommitment
    dsimp only
    rw [List.map_cons, List.map_replicate, hRead, hRead]
  have hNonce :
      sampleHexToBin (sampleRequest base inputCount).pedersenTotalNonce =
        List.replicate 31 0 ++ [1] :=
    hRead _
  have hExcess : (sampleRequest base inputCount).excessFee = 0 := rfl
  unfold pedersenBalanceHolds
  rw [hTexts, hNonce, hExcess]
  rcases hCount with rfl | rfl
  · rfl
  · rfl

/- The signature verifies for every hash. -/
theorem verify_sampleHash (msg : Vector UInt8 32) :
    verifyBchSchnorrHex sampleHexToBin wideSeven sampleHash sampleConductor.issuerPubkey
        (sampleAuthorized '1').credentialSig (hexString msg.toList) = true := by
  have hRead := sampleHexToBin_reads.displayed
  have hParse : wideSeven.parsePoint (sevenEncode 3).toList = .ok 3 :=
    wideSeven.parse_encode 3 (by decide)
  have hChallenge :
      Schnorr.challengeOf wideSeven sampleHash 3 sevenSignature.rx msg =
        Schnorr.challengeOf wideSeven sevenSha256 3 sevenSignature.rx (Vector.replicate 32 0) := by
    unfold Schnorr.challengeOf sampleHash
    rw [if_pos (by simp)]
    rfl
  have hConstant :
      Schnorr.verify wideSeven sevenSha256 (sevenEncode 3).toList sevenSignature
          (Vector.replicate 32 0) = .ok true := by
    decide +kernel
  have hVerify :
      Schnorr.verify wideSeven sampleHash (sevenEncode 3).toList sevenSignature msg = .ok true := by
    rw [Schnorr.verify_eq_true_iff hParse (by decide)] at hConstant ⊢
    rw [hChallenge]
    exact hConstant
  have hSignature :
      signatureOf (sevenSignature.rx.toList ++ sevenSignature.s.toList) = some sevenSignature := by
    decide +kernel
  have hMessage : array32 msg.toList = some msg := by
    unfold array32
    rw [dif_pos Vector.length_toList]
    rfl
  unfold verifyBchSchnorrHex sampleConductor sampleAuthorized
  dsimp only
  rw [hRead, hRead, hRead]
  unfold verifyBchSchnorr
  rw [hSignature, hMessage]
  have hThree : ((3 : Nat) : ZMod 7) = 3 := rfl
  dsimp only
  rw [hThree, hVerify]

theorem checkInput_sample (hHex : isHexChar digit = true) :
    CoordinatorRound.checkInput wideSeven sampleHexToBin sampleHash sampleConductor
        (sampleCoin digit, (sampleAuthorized '1').credentialSig, sampleKey '5') = .ok () := by
  have hSalt : isHexOf 64 (sampleKey '5') = true := isHexOf_sampleKey (by decide)
  unfold CoordinatorRound.checkInput CoordinatorRound.inputCredentialMessageHashHex
  rw [inputCredentialMessageHash_of_valid sampleHexToBin_reads (valid_sampleCoin hHex) hSalt]
  unfold Except.map
  dsimp only
  rw [bind_of_ok rfl, if_pos (verify_sampleHash _)]

theorem isHexOf_sampleSig : isHexOf 128 (sampleAuthorized '1').credentialSig = true := by
  unfold sampleAuthorized hexString
  dsimp only
  rw [isHexOf_ofList]
  decide +kernel

theorem valid_sampleOutput {value : Int} (hLow : 546 ≤ value) (hHigh : value ≤ 100000)
    {serial : Char} (hHex : isHexChar serial = true) :
    validAuthorizedOutput (sampleOutput value serial) = true := by
  have hSerial : isHexOf 64 (sampleKey serial) = true := isHexOf_sampleKey hHex
  have hSalt : isHexOf 64 (sampleKey '5') = true := isHexOf_sampleKey (by decide)
  have hOutput : validOutput (sampleOutput value serial).output = true := by
    unfold validOutput sampleOutput sampleAuthorized AuthorizedOnionOutput.output isSafeIntegerIn
      isSafeInteger maxMoney maxScriptHexChars
    simp only [Bool.and_eq_true, decide_eq_true_eq]
    rw [String.length_ofList, String.toList_ofList]
    refine ⟨⟨⟨⟨by decide, by decide⟩, by decide⟩, by decide⟩, ?_⟩
    omega
  unfold validAuthorizedOutput
  rw [hOutput]
  unfold sampleOutput
  simp only [Bool.true_and, Bool.and_eq_true]
  exact ⟨⟨hSerial, isHexOf_sampleSig⟩, hSalt⟩

def sampleOutputHash (output : AuthorizedOnionOutput) : String :=
  hexString
    (sampleHash
      (Fusion.Schema.encodeComponent
        (componentOfOutput sampleHexToBin output.output output.saltCommitment))).toList

theorem read_sampleOutput (value : Int) (serial : Char) :
    componentOfOutput sampleHexToBin (sampleOutput value serial).output
        (sampleOutput value serial).saltCommitment =
      { saltCommitment := List.replicate 32 0x55
        component :=
          some (.output
              { scriptpubkey := [0x76, 0xa9, 0x14] ++ List.replicate 20 0 ++ [0x88, 0xac]
                amount := UInt64.ofNat value.toNat }) } := by
  have hSalt : (sampleOutput value serial).saltCommitment = hexString (List.replicate 32 0x55) := by
    unfold sampleOutput sampleAuthorized hexString
    dsimp only
    exact congrArg String.ofList (by decide)
  have hScript :
      (sampleOutput value serial).output.script =
        hexString ([0x76, 0xa9, 0x14] ++ List.replicate 20 0 ++ [0x88, 0xac]) := by
    unfold sampleOutput sampleAuthorized hexString AuthorizedOnionOutput.output
    dsimp only
    exact congrArg String.ofList (by decide)
  unfold componentOfOutput outputComponent
  dsimp only
  rw [hSalt, hScript, read_of_hexText sampleHexToBin_reads (hexText_hexString _),
    read_of_hexText sampleHexToBin_reads (hexText_hexString _)]
  rfl

theorem sampleBatch_fits :
    BatchFits wideSeven sampleHexToBin sampleHash sampleConductor sampleBatch sampleOutputHash := by
  have hValid : ∀ output ∈ sampleBatch, validAuthorizedOutput output = true := by
    intro output hMem
    unfold sampleBatch at hMem
    simp only [List.mem_cons, List.not_mem_nil, or_false] at hMem
    rcases hMem with rfl | rfl | rfl
    · exact valid_sampleOutput (by decide) (by decide) (by decide)
    · exact valid_sampleOutput (by decide) (by decide) (by decide)
    · exact valid_sampleOutput (by decide) (by decide) (by decide)
  constructor
  · exact List.cons_ne_nil _ _
  · exact hValid
  · intro output hMem
    have hSig : output.credentialSig = (sampleAuthorized '1').credentialSig := by
      unfold sampleBatch at hMem
      simp only [List.mem_cons, List.not_mem_nil, or_false] at hMem
      rcases hMem with rfl | rfl | rfl
      · rfl
      · rfl
      · rfl
    unfold outputCredentialMessageHashHex
    rw [outputCredentialMessageHash_of_valid sampleHexToBin_reads (hValid output hMem), hSig]
    exact ⟨rfl, verify_sampleHash _⟩
  · unfold sampleBatch serialKey sampleOutput sampleAuthorized
    simp only [List.map, toLowerCase_ofList]
    decide +kernel
  · unfold sampleBatch
    decide +kernel
  · have hHashes :
        sampleBatch.map sampleOutputHash = ([9700, 14501, 14502].map
            (fun value => (sampleHash
                (Fusion.Schema.encodeComponent
                  { saltCommitment := List.replicate 32 0x55
                    component :=
                      some (.output
                          { scriptpubkey :=
                              [0x76, 0xa9, 0x14] ++ List.replicate 20 0 ++ [0x88, 0xac]
                            amount := UInt64.ofNat value }) })).toList)).map
            hexString := by
      unfold sampleBatch sampleOutputHash
      simp only [List.map, read_sampleOutput]
      rfl
    rw [hHashes]
    apply List.Nodup.map hexString_injective
    decide +kernel

def sampleStep : CoordinatorRound → CoordinatorEvent → CoordinatorRound :=
  CoordinatorRound.step wideSeven sampleHexToBin sampleHash sevenSetup sampleConductor

def sampleStart : CoordinatorRound :=
  CoordinatorRound.start sampleHexToBin sampleConductor emptyStorage

def sampleAnswered : CoordinatorRound :=
  { sampleStart with
    seenNonces := ["1"]
    usedSlots := [26, 25, 24, 0, 1]
    credentialedPeers := ["a", "b"]
    inputQuotaByPeer := [("a", 1), ("b", 2)]
    outputQuotaByPeer := [("a", 1), ("b", 1)]
    issued := sampleStart.issued ++ sampleHidden ['b', 'd'] (sampleOutput 14501 '2') }

def sampleRequested : CoordinatorRound :=
  { sampleAnswered with
    seenNonces := ["2", "1"]
    usedSlots := [49, 48, 26, 25, 24, 0, 1]
    credentialedPeers := ["a", "b", "c"]
    inputQuotaByPeer := [("a", 1), ("b", 2), ("c", 1)]
    outputQuotaByPeer := [("a", 1), ("b", 1), ("c", 1)]
    issued := sampleAnswered.issued ++ sampleHidden ['c'] (sampleOutput 14502 '3') }

def samplePresented (last : Char) : CoordinatorRound :=
  { sampleRequested with
    seenNonces := ["3", "2", "1"]
    credentialedInputs := ([last, 'b', 'a'].map sampleCoin).map inputKey
    anonymousInputs := ['b', last].map sampleCoin }

def sampleFilled (last : Char) : CoordinatorRound :=
  { samplePresented last with
    seenNonces := ["4", "3", "2", "1"]
    credentialedInputs := (['c', last, 'b', 'a'].map sampleCoin).map inputKey
    anonymousInputs := ['b', last, 'c'].map sampleCoin }

def sampleBatched (last : Char) : CoordinatorRound :=
  { sampleFilled last with
    seenNonces := ["5", "4", "3", "2", "1"]
    nullifiers := emptyStorage.write "s" (sampleBatch.map serialKey)
    anonymousOutputBatches := [sampleBatch] }

def sampleReady (last : Char) : CoordinatorRound :=
  { sampleBatched last with
    seenNonces := ["7", "6", "5", "4", "3", "2", "1"]
    readyPeers := ["b", "c"] }

/- The slots of a request follow each other. -/
theorem balanced_sample {state : CoordinatorRound} {base inputCount : Nat}
    (hCount : inputCount = 1 ∨ inputCount = 2) (hFresh : sender ∉ state.credentialedPeers)
    (hParses : (sampleRequest base inputCount).parses = true)
    (hBase : peerCredentialSlotBase sampleConductor.participants sender = .ok base)
    (hRange : base + credentialSlotsPerPeer ≤ 72)
    (hUnused :
        (((sampleRequest base inputCount).requests.map Prod.fst).reverse ++ state.usedSlots).Nodup)
      :
    Balanced sampleHexToBin sevenSetup sampleConductor state sender (sampleRequest base inputCount)
      base := by
  have hRead : sampleHexToBin (sampleScalar 0) = List.replicate 32 0 :=
    sampleHexToBin_reads.displayed _
  have hSlots :
      ∀ slot ∈ (sampleRequest base inputCount).requests,
      base ≤ slot.1 ∧ slot.1 < base + inputCount + 1 ∧ slot.2 = sampleScalar 0 := by
    intro slot hMem
    rcases List.mem_map.mp hMem with ⟨row, hRow, rfl⟩
    have hIndex := List.mem_zipIdx hRow
    rw [List.length_cons, List.length_replicate] at hIndex
    exact ⟨hIndex.1, by omega, rfl⟩
  unfold credentialSlotsPerPeer at hRange
  constructor
  · exact hFresh
  · exact hParses
  · exact balance_sampleRequest base hCount
  · exact hBase
  · intro slot hMem
    have hSlot := hSlots slot hMem
    unfold credentialSlotsPerPeer
    omega
  · exact hRange
  · exact hUnused
  · intro slot hMem
    rw [(hSlots slot hMem).2.2, hRead]
    rfl

def sampleFull (last : Char) : CoordinatorRound :=
  { sampleReady last with readyPeers := ["b", "c", "a"] }

theorem sample_answered :
    sampleStep sampleStart
        (.request "s" "b" "1" (sampleRequest 24 2)
          (sampleHidden ['b', 'd'] (sampleOutput 14501 '2'))) = sampleAnswered := by
  have hBalanced :
      Balanced sampleHexToBin sevenSetup sampleConductor (sampleStart.noted "1") "b"
        (sampleRequest 24 2) 24 :=
    balanced_sample (Or.inr rfl) (by decide)
      parses_sampleRequest.1 (by decide) (by decide) (by decide)
  have hHears : sampleStart.hears sampleConductor "s" "1" = true := rfl
  have hSender : "b" ∈ sampleConductor.others := by decide
  unfold sampleStep CoordinatorRound.step
  dsimp only
  rw [if_pos hHears, if_pos hSender, handleCredentialRequest_of_balanced hBalanced]
  rfl

theorem sample_requested :
    sampleStep sampleAnswered
        (.request "s" "c" "2" (sampleRequest 48 1) (sampleHidden ['c'] (sampleOutput 14502 '3'))) =
      sampleRequested := by
  have hBalanced :
      Balanced sampleHexToBin sevenSetup sampleConductor (sampleAnswered.noted "2") "c"
        (sampleRequest 48 1) 48 :=
    balanced_sample (Or.inl rfl) (by decide)
      parses_sampleRequest.2 (by decide) (by decide) (by decide)
  have hHears : sampleAnswered.hears sampleConductor "s" "2" = true := rfl
  have hSender : "c" ∈ sampleConductor.others := by decide
  unfold sampleStep CoordinatorRound.step
  dsimp only
  rw [if_pos hHears, if_pos hSender, handleCredentialRequest_of_balanced hBalanced]
  rfl

/- Coins of different letters have different keys. -/
theorem inputKey_sampleCoin_inj {first second : Char}
    (hSame : inputKey (sampleCoin first) = inputKey (sampleCoin second)) : first = second := by
  have hText := congrArg String.toList hSame
  unfold inputKey sampleCoin sampleKey at hText
  simp only [String.toList_append, String.toList_ofList] at hText
  exact (List.cons.inj hText).1

variable {digits : List Char}

theorem nodup_sampleCoins (hNodup : digits.Nodup) :
    ((digits.map sampleCoin).map inputKey).Nodup := by
  rw [List.map_map]
  exact List.Nodup.map (fun _ _ => inputKey_sampleCoin_inj) hNodup

/- Coins of hexadecimal letters are accepted. -/
theorem sample_accepts {state : CoordinatorRound} {nonce : String}
    (hHears : state.hears sampleConductor "s" nonce = true) (hWaiting : state.readyPeers.length ≠ 3)
    (hHex : ∀ digit ∈ digits, isHexChar digit = true)
    (hQuota : (state.inputPool sampleConductor).length + digits.length ≤ state.expectedInputCount)
    {known : List Char} (hKnown : state.credentialedInputs = (known.map sampleCoin).map inputKey)
    (hNodup : (digits.reverse ++ known).Nodup) :
    sampleStep state
        (.message "s" sender nonce (sampleInputs digits)) =
      { state with
        seenNonces := nonce :: state.seenNonces
        credentialedInputs := ((digits.reverse ++ known).map sampleCoin).map inputKey
        anonymousInputs := state.anonymousInputs ++ digits.map sampleCoin } := by
  have hKeys :
      ((digits.map sampleCoin).map inputKey).reverse ++ (state.noted nonce).credentialedInputs =
        ((digits.reverse ++ known).map sampleCoin).map inputKey := by
    unfold CoordinatorRound.noted
    dsimp only
    rw [hKnown, List.map_append, List.map_append, List.map_reverse, List.map_reverse]
  have hAccepted :
      (state.noted nonce).acceptInputs wideSeven sampleHexToBin
          sampleHash sampleConductor (digits.map sampleCoin)
          (digits.map (fun _ => (sampleAuthorized '1').credentialSig))
          (digits.map (fun _ => sampleKey '5')) =
        .ok
          { state with
            seenNonces := nonce :: state.seenNonces
            credentialedInputs := ((digits.reverse ++ known).map sampleCoin).map inputKey
            anonymousInputs := state.anonymousInputs ++ digits.map sampleCoin } := by
    rw [← hKeys]
    apply acceptInputs_of_credentials
    · rw [List.length_map, List.length_map]
    · rw [List.length_map, List.length_map]
    · rw [List.length_map]
      exact hQuota
    · intro entry hMem
      rw [List.zip_map', List.zip_map'] at hMem
      rcases List.mem_map.mp hMem with ⟨digit, hDigit, rfl⟩
      exact checkInput_sample (hHex digit hDigit)
    · rw [hKeys]
      exact nodup_sampleCoins hNodup
  unfold sampleStep CoordinatorRound.step
  dsimp only
  rw [if_pos hHears]
  unfold CoordinatorRound.onMessage sampleInputs
  dsimp only
  rw [hAccepted]
  exact tryAssemble_of_waiting hWaiting

variable {last : Char}

theorem sample_presented (hHex : isHexChar last = true) (hNew : last ∉ ['b', 'a']) :
    sampleStep sampleRequested (.message "s" "x" "3" (sampleInputs ['b', last])) =
      samplePresented last := by
  have hDigits : ∀ digit ∈ ['b', last], isHexChar digit = true := by
    intro digit hMem
    rcases List.mem_cons.mp hMem with rfl | hLast
    · decide
    · rw [List.mem_singleton.mp hLast]
      exact hHex
  have hNodup : (['b', last].reverse ++ ['a']).Nodup := List.nodup_cons.mpr ⟨hNew, by decide⟩
  have hQuota :
      (sampleRequested.inputPool sampleConductor).length + 2 ≤
        sampleRequested.expectedInputCount := by
    decide
  exact sample_accepts rfl (by decide) hDigits hQuota rfl hNodup

theorem sample_filled (hNew : last ∉ ['c', 'b', 'a']) :
    sampleStep (samplePresented last) (.message "s" "y" "4" (sampleInputs ['c'])) =
      sampleFilled last := by
  have hNodup : ('c' :: [last, 'b', 'a']).Nodup := by
    simp only [List.mem_cons, List.not_mem_nil, or_false, not_or] at hNew
    rw [List.nodup_cons, List.nodup_cons]
    refine ⟨?_, ?_, by decide⟩
    · simp [Ne.symm hNew.1]
    · simp [hNew.2.1, hNew.2.2]
  have hQuota :
      ((samplePresented last).inputPool sampleConductor).length + 1 ≤
        (samplePresented last).expectedInputCount :=
    le_of_eq rfl
  have hHex : ∀ digit ∈ ['c'], isHexChar digit = true := List.forall_mem_singleton.mpr rfl
  have hWaiting : (samplePresented last).readyPeers.length ≠ 3 := Nat.zero_ne_add_one 2
  exact sample_accepts rfl hWaiting hHex hQuota rfl hNodup

theorem sample_batched (last : Char) :
    sampleStep (sampleFilled last) (.message "s" "z" "5" (.outputs sampleBatch)) =
      sampleBatched last := by
  have hHears : (sampleFilled last).hears sampleConductor "s" "5" = true := rfl
  have hSender : "z" ∉ sampleConductor.participants := by
    decide
  have hWaiting : (sampleBatched last).readyPeers.length ≠ sampleConductor.participants.length :=
    Nat.zero_ne_add_one 2
  have hOutputs :
      ((sampleFilled last).noted "5").onOutputs wideSeven sampleHexToBin sampleHash sampleConductor
          "z" sampleBatch = (sampleBatched last).tryAssemble sampleConductor :=
    onOutputs_of_batch sampleBatch_fits rfl hSender rfl rfl rfl (fun _ _ => List.not_mem_nil)
  unfold sampleStep CoordinatorRound.step
  dsimp only
  rw [if_pos hHears]
  unfold CoordinatorRound.onMessage
  dsimp only
  rw [hOutputs]
  exact tryAssemble_of_waiting hWaiting

theorem sample_says {state : CoordinatorRound} {peer nonce : String}
    (hHears : state.hears sampleConductor "s" nonce = true)
    (hSender : peer ∈ sampleConductor.others) (hNew : peer ∉ state.readyPeers)
    (hWaiting : state.readyPeers.length ≠ 2) :
    sampleStep state (.message "s" peer nonce .componentsReady) =
      { state with
        seenNonces := nonce :: state.seenNonces
        readyPeers := state.readyPeers ++ [peer] } := by
  unfold sampleStep CoordinatorRound.step
  dsimp only
  rw [if_pos hHears]
  unfold CoordinatorRound.onMessage
  dsimp only
  rw [if_pos hSender]
  unfold CoordinatorRound.addReady CoordinatorRound.noted
  dsimp only
  rw [if_neg hNew]
  apply tryAssemble_of_waiting
  dsimp only
  rw [List.length_append]
  exact fun hThree => hWaiting (Nat.succ.inj hThree)

theorem sample_ready (last : Char) :
    sampleStep (sampleStep (sampleBatched last) (.message "s" "b" "6" .componentsReady))
        (.message "s" "c" "7" .componentsReady) = sampleReady last := by
  have hFirst :
      sampleStep (sampleBatched last)
          (.message "s" "b" "6" .componentsReady) =
        { sampleBatched last with
          seenNonces := ["6", "5", "4", "3", "2", "1"]
          readyPeers := ["b"] } :=
    sample_says rfl (by decide) List.not_mem_nil (Nat.zero_ne_add_one 1)
  rw [hFirst]
  have hNew : "c" ∉ ["b"] := by decide
  exact sample_says rfl (by decide) hNew (Nat.succ_ne_succ_iff.mpr (Nat.zero_ne_add_one 0))

/- The coins that are assembled. -/
def sampleCoins (last : Char) : List FusionInputRef := ['a', 'b', last, 'c'].map sampleCoin

theorem sizes_sample (last : Char) :
    ((sampleCoins last).map (fun i => (108 + i.pubkey.length / 2 : ℚ))).sum = 564 ∧
    ((sampleBatch.map AuthorizedOnionOutput.output).map
          (fun o => (9 + o.script.length / 2 : ℚ))).sum = 102 := by
  have hPubkey : ∀ digit, (sampleCoin digit).pubkey.length = 66 := by
    intro digit
    unfold sampleCoin
    rw [String.length_ofList]
    rfl
  have hScript : ∀ value serial, (sampleOutput value serial).output.script.length = 50 := by
    intro value serial
    unfold sampleOutput sampleAuthorized AuthorizedOnionOutput.output
    rw [String.length_ofList]
    rfl
  unfold sampleCoins sampleBatch
  simp only [List.map, hPubkey, hScript]
  norm_num

theorem sample_readyToAssemble (hNew : last ∉ ['c', 'b', 'a']) :
    ReadyToAssemble sampleConductor (sampleFull last) := by
  have hPool : (sampleFull last).inputPool sampleConductor = sampleCoins last := rfl
  have hOutputs : (sampleFull last).outputPool = sampleBatch.map AuthorizedOnionOutput.output := rfl
  have hFee : feeOf (sampleCoins last) (sampleBatch.map AuthorizedOnionOutput.output) = 1297 := rfl
  have hDigits : ['a', 'b', last, 'c'].Nodup := by
    simp only [List.mem_cons, List.not_mem_nil, or_false, not_or] at hNew
    simp [List.nodup_cons, hNew.1, Ne.symm hNew.2.1, Ne.symm hNew.2.2]
  have hKnown : ['a', 'b', last, 'c'].Perm ['c', last, 'b', 'a'] :=
    (List.reverse_perm ['c', last, 'b', 'a'])
  have hSizes := sizes_sample last
  constructor
  · rfl
  · rfl
  · rfl
  · rw [hOutputs]
    exact List.cons_ne_nil _ _
  · rw [hPool]
    exact List.cons_ne_nil _ _
  · rfl
  · rfl
  · rw [hPool]
    intro input hMem
    exact ((hKnown.map sampleCoin).map inputKey).mem_iff.mp (List.mem_map_of_mem hMem)
  · rw [hPool]
    exact nodup_sampleCoins hDigits
  · rw [hPool, hOutputs, hFee]
    decide
  · rw [hPool, hOutputs, hFee]
    decide
  · rw [hPool, hOutputs, hFee, hSizes.1, hSizes.2]
    unfold sampleConductor
    norm_num

theorem sample_assembles (hNew : last ∉ ['c', 'b', 'a']) :
    ∃ tx : AssembledFusionTx,
    tx.inputs.Perm (sampleCoins last) ∧
      (sampleStep (sampleReady last) .injected).assembled = some tx := by
  rcases tryAssemble_of_ready (sample_readyToAssemble hNew) with ⟨draft, hInputs, hDraft⟩
  have hStep :
      sampleStep (sampleReady last) .injected = (sampleFull last).tryAssemble sampleConductor :=
    rfl
  refine ⟨draft, hInputs, ?_⟩
  rw [hStep, hDraft]

theorem parses_sampleInputs (hHex : ∀ digit ∈ digits, isHexChar digit = true)
    (hSome : 1 ≤ digits.length) (hFew : digits.length ≤ maxComponents) :
    (sampleInputs digits).parses = true := by
  apply parses_inputs
  · rw [List.length_map]
    exact hSome
  · rw [List.length_map]
    exact hFew
  · intro input hMem
    rcases List.mem_map.mp hMem with ⟨digit, hDigit, rfl⟩
    exact valid_sampleCoin (hHex digit hDigit)
  · rw [List.length_map, List.length_map]
  · intro sig hMem
    rcases List.mem_map.mp hMem with ⟨digit, -, rfl⟩
    exact isHexOf_sampleSig
  · rw [List.length_map, List.length_map]
  · intro salt hMem
    rcases List.mem_map.mp hMem with ⟨digit, -, rfl⟩
    exact isHexOf_sampleKey (by decide)

theorem issued_sampleRequested :
    sampleRequested.issued = [sampleComponent 'a',
        componentOfOutput sampleHexToBin (sampleOutput 9700 '1').output (sampleKey '5'),
        sampleComponent 'b', sampleComponent 'd',
        componentOfOutput sampleHexToBin (sampleOutput 14501 '2').output (sampleKey '5'),
        sampleComponent 'c',
        componentOfOutput sampleHexToBin (sampleOutput 14502 '3').output (sampleKey '5')] := rfl

/- Coins that were asked for arrive. -/
theorem arrives_sampleInputs (state : CoordinatorRound)
    (hHex : ∀ digit ∈ digits, isHexChar digit = true) (hSome : 1 ≤ digits.length)
    (hFew : digits.length ≤ maxComponents) (hSame : state.issued = sampleRequested.issued)
    (hIssued : ∀ digit ∈ digits, sampleComponent digit ∈ sampleRequested.issued)
    (session sender nonce : String) :
    Arrives wideSeven sampleHexToBin sampleHash sampleConductor state
      (.message session sender nonce (sampleInputs digits)) := by
  constructor
  · exact parses_sampleInputs hHex hSome hFew
  · intro entry hMem _
    rw [List.zip_map', List.zip_map'] at hMem
    rcases List.mem_map.mp hMem with ⟨digit, hDigit, rfl⟩
    rw [hSame]
    exact hIssued digit hDigit

theorem arrives_sampleBatch (state : CoordinatorRound)
    (hIssued : state.issued = sampleRequested.issued) (session sender nonce : String) :
    Arrives wideSeven sampleHexToBin sampleHash sampleConductor state
      (.message session sender nonce (.outputs sampleBatch)) := by
  constructor
  · unfold Parses RoundMessage.parses validArray
    simp only [Bool.and_eq_true, List.all_eq_true]
    exact ⟨⟨rfl, rfl⟩, sampleBatch_fits.valid⟩
  · intro output hMem _
    have hSalt : ∀ value serial, (sampleOutput value serial).saltCommitment = sampleKey '5' :=
      fun _ _ => rfl
    rw [hIssued, issued_sampleRequested]
    unfold sampleBatch at hMem
    simp only [List.mem_cons, List.not_mem_nil, or_false] at hMem
    rcases hMem with rfl | rfl | rfl
    · rw [hSalt]
      simp only [List.mem_cons, true_or, or_true]
    · rw [hSalt]
      simp only [List.mem_cons, true_or, or_true]
    · rw [hSalt]
      simp only [List.mem_cons, true_or, or_true]

theorem SpelledAlike.mono {first second : List FusionInputRef} (hSubset : first ⊆ second)
    (hAlike : SpelledAlike hexToBin second) : SpelledAlike hexToBin first :=
  fun one hOne other hOther => hAlike one (hSubset hOne) other (hSubset hOther)

/- The run up to the last word of the coordinator. -/
theorem sample_conducts (hHex : isHexChar last = true) (hNew : last ∉ ['c', 'b', 'a'])
    (hAsked :
        sampleComponent last = sampleComponent 'b' ∨ sampleComponent last = sampleComponent 'd') :
    Conducts wideSeven sampleHexToBin sampleHash sevenSetup sampleConductor
      (fun state event => Arrives wideSeven sampleHexToBin sampleHash sampleConductor state event ∧
          (SpelledAlike sampleHexToBin (sampleCoins last) →
            SpellsAlike sampleHexToBin sampleConductor state event)) (sampleReady last) := by
  have hBefore : last ∉ ['b', 'a'] := fun hMem => hNew (List.mem_cons_of_mem _ hMem)
  have hPairHex : ∀ digit ∈ ['b', last], isHexChar digit = true := by
    intro digit hMem
    rcases List.mem_cons.mp hMem with rfl | hLast
    · decide
    · rw [List.mem_singleton.mp hLast]
      exact hHex
  have hPairIssued : ∀ digit ∈ ['b', last], sampleComponent digit ∈ sampleRequested.issued := by
    rw [issued_sampleRequested]
    intro digit hMem
    rcases List.mem_cons.mp hMem with rfl | hLast
    · simp only [List.mem_cons, true_or, or_true]
    · rw [List.mem_singleton.mp hLast]
      rcases hAsked with hSame | hSame
      · rw [hSame]
        simp only [List.mem_cons, true_or, or_true]
      · rw [hSame]
        simp only [List.mem_cons, true_or, or_true]
  have hOneIssued : ∀ digit ∈ ['c'], sampleComponent digit ∈ sampleRequested.issued := by
    rw [issued_sampleRequested]
    intro digit hMem
    rw [List.mem_singleton.mp hMem]
    simp only [List.mem_cons, true_or, or_true]
  have hOneHex : ∀ digit ∈ ['c'], isHexChar digit = true := List.forall_mem_singleton.mpr rfl
  rw [← sample_ready last]
  apply Runs.Reached.step
  · apply Runs.Reached.step
    · rw [← sample_batched last]
      apply Runs.Reached.step
      · rw [← sample_filled hNew]
        apply Runs.Reached.step
        · rw [← sample_presented hHex hBefore]
          apply Runs.Reached.step
          · rw [← sample_requested]
            apply Runs.Reached.step
            · rw [← sample_answered]
              apply Runs.Reached.step
              · exact .first ⟨emptyStorage, rfl⟩
              · exact ⟨⟨⟨parses_sampleRequest.1, rfl⟩, trivial⟩, fun _ => trivial⟩
            · exact ⟨⟨⟨parses_sampleRequest.2, rfl⟩, trivial⟩, fun _ => trivial⟩
          · refine ⟨arrives_sampleInputs sampleRequested hPairHex (Nat.le_add_left 1 1)
                (Nat.le_add_left 2 118) rfl hPairIssued "s" "x" "3", ?_⟩
            apply SpelledAlike.mono
            intro input hMem
            have hPool :
                sampleRequested.inputPool sampleConductor ++ ['b', last].map sampleCoin =
                  ['a', 'b', last].map sampleCoin :=
              rfl
            rw [hPool] at hMem
            exact List.map_subset sampleCoin (List.subset_append_left ['a', 'b', last] ['c']) hMem
        · refine
            ⟨arrives_sampleInputs (samplePresented last) hOneHex
                (by decide) (by decide) rfl hOneIssued "s" "y" "4",
              ?_⟩
          apply SpelledAlike.mono
          exact List.Subset.refl _
      · exact ⟨arrives_sampleBatch (sampleFilled last) rfl "s" "z" "5", fun _ => trivial⟩
    · exact ⟨⟨rfl, trivial⟩, fun _ => trivial⟩
  · exact ⟨⟨rfl, trivial⟩, fun _ => trivial⟩

theorem read_sampleKey {value : Nat} (hDigit : value < 16) :
    sampleHexToBin (toLowerCase (sampleKey (Nat.digitChar value))) =
      List.replicate 32 (UInt8.ofNat (17 * value)) := by
  have hDigits :
      ∀ value < 16,
        List.replicate 64 (Nat.digitChar value) =
          (List.replicate 32 (UInt8.ofNat (17 * value))).flatMap
            (fun byte => [Nat.digitChar (byte.toNat / 16), Nat.digitChar (byte.toNat % 16)]) := by
    decide +kernel
  have hText :
      sampleKey (Nat.digitChar value) = hexString (List.replicate 32 (UInt8.ofNat (17 * value))) :=
    congrArg String.ofList (hDigits value hDigit)
  rw [hText, read_of_hexText sampleHexToBin_reads (hexText_hexString _)]

/- Small letters are told apart. -/
theorem sampleCoins_alike : SpelledAlike sampleHexToBin (sampleCoins 'd') := by
  have hRead :
      ∀ input ∈ sampleCoins 'd', ∃ value < 16, input = sampleCoin (Nat.digitChar value) := by
    intro input hMem
    unfold sampleCoins at hMem
    simp only [List.map, List.mem_cons, List.not_mem_nil, or_false] at hMem
    rcases hMem with rfl | rfl | rfl | rfl
    · exact ⟨10, by decide, rfl⟩
    · exact ⟨11, by decide, rfl⟩
    · exact ⟨13, by decide, rfl⟩
    · exact ⟨12, by decide, rfl⟩
  intro first hFirst second hSecond hSame
  rcases hRead first hFirst with ⟨one, hOne, rfl⟩
  rcases hRead second hSecond with ⟨other, hOther, rfl⟩
  have hBytes := congrArg Prod.fst hSame
  unfold outpointOf sampleCoin at hBytes
  dsimp only at hBytes
  rw [read_sampleKey hOne, read_sampleKey hOther] at hBytes
  have hByte := List.replicate_right_injective (by decide) hBytes
  have hNat := congrArg UInt8.toNat hByte
  rw [UInt8.toNat_ofNat', UInt8.toNat_ofNat'] at hNat
  have hValue : one = other := by omega
  rw [hValue]

/- Every coin is presented in one spelling. -/
theorem assembled_once_sample :
    ∃ tx : AssembledFusionTx,
    (sampleStep (sampleReady 'd') .injected).assembled = some tx ∧
      AssembledOnce sampleHexToBin (sampleStep (sampleReady 'd') .injected) tx := by
  have hNew : 'd' ∉ ['c', 'b', 'a'] := by decide
  have hOwn : SpelledAlike sampleHexToBin sampleConductor.myContribution.inputs := by
    intro first hFirst second hSecond _
    rw [List.mem_singleton.mp hFirst, List.mem_singleton.mp hSecond]
  have hConducts :
      Conducts wideSeven sampleHexToBin sampleHash sevenSetup sampleConductor
        (fun state event =>
          Arrives wideSeven sampleHexToBin sampleHash sampleConductor state event ∧
            SpellsAlike sampleHexToBin sampleConductor state event)
        (sampleReady 'd') :=
    Runs.reached_mono
      (fun _ _ hBoth => ⟨hBoth.1, hBoth.2 sampleCoins_alike⟩)
      (sample_conducts (by decide) hNew (Or.inr rfl))
  have hArrives :
      Arrives wideSeven sampleHexToBin sampleHash sampleConductor (sampleReady 'd') .injected :=
    ⟨trivial, trivial⟩
  rcases sample_assembles hNew with ⟨tx, -, hTx⟩
  exact ⟨tx, hTx, assembled_once hOwn hConducts hArrives trivial rfl hTx⟩

/- A coin in both spellings fills two inputs with one credential. -/
theorem one_coin_fills_two_inputs :
    ¬ ∀ (params : CoordinatorParams) (state : CoordinatorRound) (event : CoordinatorEvent)
      (tx : AssembledFusionTx), Conducts wideSeven sampleHexToBin sampleHash sevenSetup params
      (Arrives wideSeven sampleHexToBin sampleHash params) state → Arrives wideSeven sampleHexToBin
      sampleHash params state event → state.assembled = none →
      (state.step wideSeven sampleHexToBin sampleHash sevenSetup params event).assembled = some tx →
      AssembledOnce sampleHexToBin
      (state.step wideSeven sampleHexToBin sampleHash sevenSetup params event) tx := by
  intro hAll
  have hNew : 'B' ∉ ['c', 'b', 'a'] := by decide
  have hLower : toLowerCase (sampleKey 'B') = toLowerCase (sampleKey 'b') := by
    unfold sampleKey
    rw [toLowerCase_ofList, toLowerCase_ofList]
    exact congrArg String.ofList (by decide)
  have hComponent : sampleComponent 'B' = sampleComponent 'b' := by
    unfold sampleComponent componentOfInput inputComponent sampleCoin
    dsimp only
    rw [hLower]
  have hConducts :
      Conducts wideSeven sampleHexToBin sampleHash sevenSetup sampleConductor
        (Arrives wideSeven sampleHexToBin sampleHash sampleConductor) (sampleReady 'B') :=
    Runs.reached_mono (fun _ _ hBoth => hBoth.1)
      (sample_conducts (by decide) hNew (Or.inl hComponent))
  rcases sample_assembles hNew with ⟨tx, hInputs, hTx⟩
  have hOnce :=
    hAll sampleConductor (sampleReady 'B') .injected tx hConducts ⟨trivial, trivial⟩ rfl hTx
  have hNodup := (hInputs.map (outpointOf sampleHexToBin)).nodup_iff.mp hOnce.outpoints
  have hSame :
      outpointOf sampleHexToBin (sampleCoin 'B') = outpointOf sampleHexToBin (sampleCoin 'b') := by
    unfold outpointOf sampleCoin
    dsimp only
    rw [hLower]
  have hTail := (List.nodup_cons.mp hNodup).2
  apply (List.nodup_cons.mp hTail).1
  rw [← hSame]
  exact List.mem_cons_self

end OptnWallet.Nostr
