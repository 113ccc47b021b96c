import OptnWallet.Fusion.ElectrumInput

/-
  What a batch returns, and how many lines of a server it reads for it.

  Main declarations:
    * `ElectrumInput.Settled` and `settled_step`
    * `ElectrumInput.AnswersInTime`
    * `ElectrumInput.batchLoop_ok`
    * `ElectrumInput.openBatch_eq_none_iff`
-/

--- Lines

namespace OptnWallet.Fusion

namespace ElectrumInput

open StagedUpdate

variable {Point : Type} (deps : Dependencies Point)

/- The next lines of a server, where all of them are read. -/
def responsesFrom (session : Session) : Nat → Nat → Except String (List ListUnspentResponse × Nat)
  | 0, position => .ok ([], position)
  | lines + 1, position => do
      let next ← nextResponse deps session position
      let rest ← responsesFrom session lines next.2
      .ok (next.1 :: rest.1, rest.2)

/- What is made of an answer to an input. -/
def verdict (response : ListUnspentResponse) (input : InputComponent) :
    Except String InputLookup := do
  let txid ← displayTxid input
  parseListunspentResponse response txid input

section Answers

variable (responses : List ListUnspentResponse)

/- The id of one of the responses is that of the request for the input. -/
def Answered (index : Nat) : Prop := index + 1 ∈ responses.map ListUnspentResponse.id

/- The first response to the request for an input. -/
def answerTo (index : Nat) : Option ListUnspentResponse :=
  responses.find? (fun response => response.id = index + 1)

/- The outpoint of every input that is answered can be displayed. -/
def Displayed (inputs : List InputComponent) : Prop :=
  ∀ index : Fin inputs.length,
    Answered responses index.val → ∃ txid, displayTxid (inputs.get index) = .ok txid

end Answers

/- Where the first lines of a server, as many as there are inputs, can be read, they answer all
   inputs. -/
def AnswersInTime (session : Session) (inputs : List InputComponent) : Prop :=
  ∀ responses position,
    responsesFrom deps session inputs.length 0 = .ok (responses, position) →
      Displayed responses inputs →
      ∀ index < inputs.length, Answered responses index

variable {deps} {session : Session} {inputs : List InputComponent}

variable {responses : List ListUnspentResponse} {index : Nat}

theorem answerTo_eq_none_iff : answerTo responses index = none ↔ ¬ Answered responses index := by
  unfold answerTo Answered
  rw [List.find?_eq_none, List.mem_map]
  simp only [decide_eq_true_eq, not_exists, not_and]

variable {lines position : Nat}

theorem length_responsesFrom {read : List ListUnspentResponse × Nat}
    (hRead : responsesFrom deps session lines position = .ok read) : read.1.length = lines := by
  induction lines generalizing position read with
  | zero =>
    cases hRead
    rfl
  | succ lines ih =>
    rcases bind_eq_ok_iff.mp hRead with ⟨next, -, hRead⟩
    rcases bind_eq_ok_iff.mp hRead with ⟨rest, hRest, hSame⟩
    cases hSame
    rw [List.length_cons, ih hRest]

/- Every input has an id of its own, so it takes as many lines to answer all. -/
theorem length_le_of_answered {count : Nat} (hAll : ∀ index < count, Answered responses index) :
    count ≤ responses.length := by
  have hNodup : ((List.range count).map Nat.succ).Nodup := List.nodup_range.map Nat.succ_injective
  have hSubset : (List.range count).map Nat.succ ⊆ responses.map ListUnspentResponse.id := by
    intro id hMem
    rcases List.mem_map.mp hMem with ⟨index, hIndex, rfl⟩
    exact hAll index (List.mem_range.mp hIndex)
  have hLength := (hNodup.subperm hSubset).length_le
  rwa [List.length_map, List.length_map, List.length_range] at hLength

--- One Line

/- What a batch keeps of the lines that it has read. -/
structure Settled (seen : List ListUnspentResponse) (state : BatchState inputs.length) : Prop where
  ids : ∀ awaited ∈ state.awaiting, awaited.requestId = awaited.index.val + 1
  awaiting :
    ∀ index : Fin inputs.length,
    index ∈ state.awaiting.map Awaited.index ↔ ¬ Answered seen index.val
  nodup : (state.awaiting.map Awaited.index).Nodup
  results :
    ∀ index : Fin inputs.length,
    state.results.get index =
      (answerTo seen index.val).map (fun response => verdict response (inputs.get index))
  remaining : state.remaining = state.awaiting.length
  displayed : Displayed seen inputs

variable {seen : List ListUnspentResponse} {response : ListUnspentResponse}

theorem answered_append :
    Answered (seen ++ [response]) index ↔ Answered seen index ∨ response.id = index + 1 := by
  unfold Answered
  rw [List.map_append, List.mem_append, List.map_singleton, List.mem_singleton, eq_comm]

theorem Answered.append (hAnswered : Answered seen index) (responses : List ListUnspentResponse) :
    Answered (seen ++ responses) index := by
  unfold Answered at hAnswered ⊢
  rw [List.map_append]
  exact List.mem_append_left _ hAnswered

/- The first answer counts. -/
theorem answerTo_append :
    answerTo (seen ++ [response]) index = (answerTo seen index).or
        (if response.id = index + 1 then some response
          else none) := by
  unfold answerTo
  rw [List.find?_append, List.find?_singleton]
  simp only [decide_eq_true_eq]

variable {state : BatchState inputs.length}

/- A response that nobody waits for changes nothing. -/
theorem settled_skip (hSettled : Settled seen state)
    (hFind : state.awaiting.find? (fun awaited => awaited.requestId = response.id) = none) :
    Settled (seen ++ [response]) { state with position } := by
  have hOther :
      ∀ index : Fin inputs.length, response.id = index.val + 1 → Answered seen index.val := by
    intro index hId
    by_contra hOpen
    rcases List.mem_map.mp ((hSettled.awaiting index).mpr hOpen) with ⟨awaited, hMem, rfl⟩
    have hNone := List.find?_eq_none.mp hFind awaited hMem
    rw [decide_eq_true_eq, hSettled.ids awaited hMem] at hNone
    exact hNone hId.symm
  have hSame :
      ∀ index : Fin inputs.length,
      Answered (seen ++ [response]) index.val ↔ Answered seen index.val := by
    intro index
    rw [answered_append]
    exact or_iff_left_of_imp (hOther index)
  constructor
  · exact hSettled.ids
  · intro index
    rw [hSame index]
    exact hSettled.awaiting index
  · exact hSettled.nodup
  · intro index
    rw [answerTo_append]
    by_cases hAnswered : Answered seen index.val
    · cases hFirst : answerTo seen index.val with
      | none => exact absurd hAnswered (answerTo_eq_none_iff.mp hFirst)
      | some first =>
        rw [Option.some_or, ← hFirst]
        exact hSettled.results index
    · rw [if_neg (fun hId => hAnswered (hOther index hId)), Option.or_none]
      exact hSettled.results index
  · exact hSettled.remaining
  · intro index hAnswered
    exact hSettled.displayed index ((hSame index).mp hAnswered)

variable {awaiting : List (Awaited inputs.length)}

/- The request that a response is to is no longer waited for. -/
theorem mem_awaiting_filter {awaited : Awaited inputs.length}
    (hIds : ∀ other ∈ awaiting, other.requestId = other.index.val + 1) (hMem : awaited ∈ awaiting) :
    (awaiting.filter (fun other => other.requestId ≠ awaited.requestId)).map Awaited.index =
      (awaiting.map Awaited.index).filter (fun index => index ≠ awaited.index) := by
  rw [List.filter_map]
  congr 1
  apply List.filter_congr
  intro other hOther
  rw [Function.comp_apply, hIds other hOther, hIds awaited hMem, decide_eq_decide, Ne, Ne,
    Nat.succ_inj, Fin.val_inj]

section

variable (hSettled : Settled seen state)
include hSettled

theorem settled_answer {awaited : Awaited inputs.length}
    {txid : String}
    (hFind : state.awaiting.find? (fun other => other.requestId = response.id) = some awaited)
    (hTxid : displayTxid (inputs.get awaited.index) = .ok txid) :
    Settled (seen ++ [response])
      { position
        awaiting := state.awaiting.filter (fun other => other.requestId ≠ response.id)
        results :=
          state.results.set awaited.index.val
            (some (parseListunspentResponse response txid (inputs.get awaited.index)))
            awaited.index.isLt
        remaining := state.remaining - 1 } := by
  have hMem := List.mem_of_find?_eq_some hFind
  have hId := List.find?_some hFind
  rw [decide_eq_true_eq] at hId
  have hIndex := hSettled.ids awaited hMem
  have hOpen : ¬ Answered seen awaited.index.val :=
    (hSettled.awaiting awaited.index).mp (List.mem_map_of_mem hMem)
  have hFilter := mem_awaiting_filter hSettled.ids hMem
  rw [hId] at hFilter
  have hIff : ∀ index : Fin inputs.length, response.id = index.val + 1 ↔ awaited.index = index := by
    intro index
    rw [← hId, hIndex, Nat.succ_inj, Fin.val_inj]
  constructor
  · intro other hOther
    exact hSettled.ids other (List.mem_filter.mp hOther).1
  · intro index
    dsimp only
    rw [hFilter, List.mem_filter, hSettled.awaiting index, answered_append, hIff, not_or,
      decide_eq_true_eq]
    exact and_congr_right (fun _ => not_congr eq_comm)
  · dsimp only
    rw [hFilter]
    exact hSettled.nodup.filter _
  · intro index
    dsimp only
    rw [answerTo_append]
    by_cases hHere : awaited.index = index
    · rw [if_pos ((hIff index).mpr hHere)]
      cases hHere
      rw [answerTo_eq_none_iff.mpr hOpen, Option.none_or, Option.map_some]
      unfold verdict
      rw [bind_of_ok hTxid]
      exact Vector.getElem_set_self _
    · rw [if_neg (fun hId => hHere ((hIff index).mp hId)), Option.or_none, ← hSettled.results index]
      exact Vector.getElem_set_ne _ _ (fun hVal => hHere (Fin.ext hVal))
  · dsimp only
    have hErase :
        (state.awaiting.map Awaited.index).erase awaited.index =
          (state.awaiting.map Awaited.index).filter (fun index => index ≠ awaited.index) := by
      rw [hSettled.nodup.erase_eq_filter]
      apply List.filter_congr
      intro index _
      rw [Bool.eq_iff_iff, bne_iff_ne, decide_eq_true_eq]
    have hLength := congrArg List.length hFilter
    rw [← hErase, List.length_erase_of_mem (List.mem_map_of_mem hMem), List.length_map,
      List.length_map] at hLength
    rw [hLength, hSettled.remaining]
  · intro index hAnswered
    rw [answered_append, hIff] at hAnswered
    rcases hAnswered with hAnswered | hHere
    · exact hSettled.displayed index hAnswered
    · cases hHere
      exact ⟨txid, hTxid⟩

/- A step that succeeds has read one line. -/
theorem settled_step {next : BatchState inputs.length}
    (hStep : batchStep deps session inputs state = .ok next) :
    ∃ response,
    nextResponse deps session state.position = .ok (response, next.position) ∧
      Settled (seen ++ [response]) next := by
  unfold batchStep at hStep
  rcases bind_eq_ok_iff.mp hStep with ⟨read, hRead, hStep⟩
  refine ⟨read.1, ?_⟩
  cases hFind :
    state.awaiting.find?
      (fun awaited => awaited.requestId = read.1.id) with
  | none =>
    rw [hFind] at hStep
    rw [← Except.ok.inj hStep]
    exact ⟨hRead, settled_skip hSettled hFind⟩
  | some awaited =>
    rw [hFind] at hStep
    rcases bind_eq_ok_iff.mp hStep with ⟨txid, hTxid, hStep⟩
    rw [← Except.ok.inj hStep]
    exact ⟨hRead, settled_answer hSettled hFind hTxid⟩

/- A step only fails where the line cannot be read, or where it answers an input that cannot be
   displayed. -/
theorem batchStep_of_displayed {read : ListUnspentResponse × Nat}
    (hRead : nextResponse deps session state.position = .ok read)
    (hDisplayed : Displayed (seen ++ [read.1]) inputs) :
    ∃ next, batchStep deps session inputs state = .ok next ∧ next.position = read.2 := by
  unfold batchStep
  rw [bind_of_ok hRead]
  cases hFind :
    state.awaiting.find?
      (fun awaited => awaited.requestId = read.1.id) with
  | none => exact ⟨_, rfl, rfl⟩
  | some awaited =>
    have hMem := List.mem_of_find?_eq_some hFind
    have hId := List.find?_some hFind
    rw [decide_eq_true_eq, hSettled.ids awaited hMem] at hId
    rcases hDisplayed awaited.index (answered_append.mpr (.inr hId.symm)) with ⟨txid, hTxid⟩
    dsimp only
    rw [bind_of_ok hTxid]
    exact ⟨_, rfl, rfl⟩

/- Nothing is waited for when every input is answered. -/
theorem Settled.remaining_eq_zero_iff :
    state.remaining = 0 ↔ ∀ index < inputs.length, Answered seen index := by
  rw [hSettled.remaining, List.length_eq_zero_iff]
  constructor
  · intro hNone index hIndex
    have hAwaiting := hSettled.awaiting ⟨index, hIndex⟩
    rw [hNone] at hAwaiting
    by_contra hOpen
    exact List.not_mem_nil (hAwaiting.mpr hOpen)
  · intro hAll
    rw [List.eq_nil_iff_forall_not_mem]
    intro awaited hMem
    exact (hSettled.awaiting awaited.index).mp (List.mem_map_of_mem hMem)
      (hAll awaited.index.val awaited.index.isLt)

end

--- All Lines

theorem batchLoop_done (lines : Nat) (hDone : state.remaining = 0) :
    batchLoop deps session inputs lines state = some (.ok state) := by
  unfold batchLoop
  rw [if_pos hDone]

theorem batchLoop_zero (hOpen : state.remaining ≠ 0) :
    batchLoop deps session inputs 0 state = none := by
  unfold batchLoop
  rw [if_neg hOpen]

theorem batchLoop_error {e : String} (lines : Nat) (hOpen : state.remaining ≠ 0)
    (hStep : batchStep deps session inputs state = .error e) :
    batchLoop deps session inputs (lines + 1) state = some (.error e) := by
  rw [batchLoop, if_neg hOpen]
  simp only [hStep]

theorem batchLoop_next {next : BatchState inputs.length} (lines : Nat) (hOpen : state.remaining ≠ 0)
    (hStep : batchStep deps session inputs state = .ok next) :
    batchLoop deps session inputs (lines + 1) state = batchLoop deps session inputs lines next := by
  rw [batchLoop, if_neg hOpen]
  simp only [hStep]

section

variable (hSettled : Settled seen state)
include hSettled

/- By induction over the lines: the batch waits for another one only when all of them were read and
   did not answer every input. -/
theorem batchLoop_eq_none (hWaits : batchLoop deps session inputs lines state = none) :
    ∃ responses position,
    responsesFrom deps session lines state.position = .ok (responses, position) ∧
      Displayed (seen ++ responses) inputs ∧
      ¬ ∀ index < inputs.length, Answered (seen ++ responses) index := by
  by_cases hDone : state.remaining = 0
  · rw [batchLoop_done lines hDone] at hWaits
    cases hWaits
  induction lines generalizing seen state with
  | zero =>
    refine ⟨[], state.position, rfl, ?_⟩
    rw [List.append_nil]
    exact ⟨hSettled.displayed, fun hAll => hDone (hSettled.remaining_eq_zero_iff.mpr hAll)⟩
  | succ lines ih =>
    cases hStep : batchStep deps session inputs state with
    | error e =>
      rw [batchLoop_error lines hDone hStep] at hWaits
      cases hWaits
    | ok next =>
      rw [batchLoop_next lines hDone hStep] at hWaits
      rcases settled_step hSettled hStep with ⟨response, hRead, hNext⟩
      have hOpen : next.remaining ≠ 0 := by
        intro hDone
        rw [batchLoop_done lines hDone] at hWaits
        cases hWaits
      rcases ih hNext hWaits hOpen with ⟨responses, position, hRest, hDisplayed, hNot⟩
      rw [List.append_assoc, List.singleton_append] at hDisplayed hNot
      refine ⟨response :: responses, position, ?_, hDisplayed, hNot⟩
      rw [responsesFrom, bind_of_ok hRead, bind_of_ok hRest]

variable (hRead : responsesFrom deps session lines state.position = .ok (responses, position))

/- And it does wait then. -/
include hRead in
theorem batchLoop_waits (hDisplayed : Displayed (seen ++ responses) inputs)
    (hNot : ¬ ∀ index < inputs.length, Answered (seen ++ responses) index) :
    batchLoop deps session inputs lines state = none := by
  have hOpen : state.remaining ≠ 0 := by
    intro hDone
    apply hNot
    intro index hIndex
    have hSeen := hSettled.remaining_eq_zero_iff.mp hDone index hIndex
    exact hSeen.append responses
  induction lines generalizing seen responses state position with
  | zero => exact batchLoop_zero hOpen
  | succ lines ih =>
    rcases bind_eq_ok_iff.mp hRead with ⟨first, hFirst, hRead⟩
    rcases bind_eq_ok_iff.mp hRead with ⟨rest, hRest, hSame⟩
    cases hSame
    have hAppend : seen ++ first.1 :: rest.1 = (seen ++ [first.1]) ++ rest.1 := by
      rw [List.append_assoc, List.singleton_append]
    rw [hAppend] at hDisplayed hNot
    have hHere : Displayed (seen ++ [first.1]) inputs := by
      intro index hAnswered
      exact hDisplayed index (hAnswered.append rest.1)
    rcases batchStep_of_displayed hSettled hFirst hHere with ⟨next, hStep, hPosition⟩
    rcases settled_step hSettled hStep with ⟨response, hResponse, hNext⟩
    rw [hFirst] at hResponse
    cases hResponse
    rw [batchLoop_next lines hOpen hStep]
    apply ih hNext hRest hDisplayed hNot
    intro hDone
    apply hNot
    intro index hIndex
    have hSeen := hNext.remaining_eq_zero_iff.mp hDone index hIndex
    exact hSeen.append rest.1

/- What a batch that succeeds has read. -/
theorem batchLoop_ok {final : BatchState inputs.length}
    (hOk : batchLoop deps session inputs lines state = some (.ok final)) :
    final.remaining = 0 ∧
    ∃ count responses,
      count ≤ lines ∧
        responsesFrom deps session count state.position = .ok (responses, final.position) ∧
        Settled (seen ++ responses) final := by
  induction lines generalizing seen state with
  | zero =>
    by_cases hDone : state.remaining = 0
    · rw [batchLoop_done 0 hDone] at hOk
      cases hOk
      refine ⟨hDone, 0, [], le_refl 0, rfl, ?_⟩
      rwa [List.append_nil]
    · rw [batchLoop_zero hDone] at hOk
      cases hOk
  | succ lines ih =>
    by_cases hDone : state.remaining = 0
    · rw [batchLoop_done _ hDone] at hOk
      cases hOk
      refine ⟨hDone, 0, [], Nat.zero_le _, rfl, ?_⟩
      rwa [List.append_nil]
    cases hStep : batchStep deps session inputs state with
    | error e =>
      rw [batchLoop_error lines hDone hStep] at hOk
      cases hOk
    | ok next =>
      rw [batchLoop_next lines hDone hStep] at hOk
      rcases settled_step hSettled hStep with ⟨response, hRead, hNext⟩
      rcases ih hNext hOk with ⟨hZero, count, responses, hCount, hRest, hFinal⟩
      rw [List.append_assoc, List.singleton_append] at hFinal
      refine ⟨hZero, count + 1, response :: responses, Nat.succ_le_succ hCount, ?_, hFinal⟩
      rw [responsesFrom, bind_of_ok hRead, bind_of_ok hRest]

/- Lines that answer every input make the batch succeed. -/
include hRead in
theorem batchLoop_of_answers (hDisplayed : Displayed (seen ++ responses) inputs)
    (hAll : ∀ index < inputs.length, Answered (seen ++ responses) index) :
    ∃ final, batchLoop deps session inputs lines state = some (.ok final) := by
  induction lines generalizing seen responses state position with
  | zero =>
    cases hRead
    rw [List.append_nil] at hAll
    exact ⟨state, batchLoop_done 0 (hSettled.remaining_eq_zero_iff.mpr hAll)⟩
  | succ lines ih =>
    by_cases hDone : state.remaining = 0
    · exact ⟨state, batchLoop_done _ hDone⟩
    rcases bind_eq_ok_iff.mp hRead with ⟨first, hFirst, hRead⟩
    rcases bind_eq_ok_iff.mp hRead with ⟨rest, hRest, hSame⟩
    cases hSame
    have hAppend : seen ++ first.1 :: rest.1 = (seen ++ [first.1]) ++ rest.1 := by
      rw [List.append_assoc, List.singleton_append]
    rw [hAppend] at hDisplayed hAll
    have hHere : Displayed (seen ++ [first.1]) inputs := by
      intro index hAnswered
      exact hDisplayed index (hAnswered.append rest.1)
    rcases batchStep_of_displayed hSettled hFirst hHere with ⟨next, hStep, hPosition⟩
    rcases settled_step hSettled hStep with ⟨response, hResponse, hNext⟩
    rw [hFirst] at hResponse
    cases hResponse
    rw [batchLoop_next lines hDone hStep]
    exact ih hNext hRest hDisplayed hAll

end

/- More lines do not change what is returned. -/
theorem batchLoop_mono {result : Except String (BatchState inputs.length)} {more : Nat}
    (hLe : lines ≤ more) (hResult : batchLoop deps session inputs lines state = some result) :
    batchLoop deps session inputs more state = some result := by
  induction lines generalizing state more with
  | zero =>
    by_cases hDone : state.remaining = 0
    · rw [batchLoop_done 0 hDone] at hResult
      rw [batchLoop_done more hDone]
      exact hResult
    · rw [batchLoop_zero hDone] at hResult
      cases hResult
  | succ lines ih =>
    cases more with
    | zero => exact absurd hLe (Nat.not_succ_le_zero lines)
    | succ more =>
      by_cases hDone : state.remaining = 0
      · rw [batchLoop_done _ hDone] at hResult ⊢
        exact hResult
      cases hStep : batchStep deps session inputs state with
      | error e =>
        rw [batchLoop_error _ hDone hStep] at hResult ⊢
        exact hResult
      | ok next =>
        rw [batchLoop_next _ hDone hStep] at hResult ⊢
        exact ih (Nat.le_of_succ_le_succ hLe) hResult

--- Requests

variable (deps session inputs)

/- The request for an input is written. -/
def Sent (index : Fin inputs.length) : Prop :=
  ∃ scripthash,
    electrumScripthash deps (inputs.get index).pubkey = .ok scripthash ∧
      session.write (listUnspentRequest (index.val + 1) scripthash) = some (.ok ())

/- Writing the request for an input never ends. -/
def WriteStalls (index : Fin inputs.length) : Prop :=
  ∃ scripthash,
    electrumScripthash deps (inputs.get index).pubkey = .ok scripthash ∧
      session.write (listUnspentRequest (index.val + 1) scripthash) = none

/- The connection is there and takes all requests. -/
def Opens : Prop := session.connect = some (.ok ()) ∧ ∀ index, Sent deps session inputs index

/- The connection is never there, or the first request that is not written never is. -/
def Stalled : Prop :=
  session.connect = none ∨
    session.connect = some (.ok ()) ∧
      ∃ before index after,
        List.finRange inputs.length = before ++ index :: after ∧
          (∀ earlier ∈ before, Sent deps session inputs earlier) ∧
          WriteStalls deps session inputs index

variable {deps session inputs} {indices : List (Fin inputs.length)}

theorem sendRequests_ok (hSent : sendRequests deps session inputs indices = some (.ok awaiting)) :
    (∀ index ∈ indices, Sent deps session inputs index) ∧
    awaiting.map Awaited.index = indices ∧
    ∀ awaited ∈ awaiting, awaited.requestId = awaited.index.val + 1 := by
  induction indices generalizing awaiting with
  | nil =>
    cases hSent
    exact ⟨List.forall_mem_nil _, rfl, List.forall_mem_nil _⟩
  | cons index indices ih =>
    unfold sendRequests at hSent
    split at hSent
    · cases hSent
    rename_i scripthash hHash
    split at hSent
    · cases hSent
    · cases hSent
    rename_i hWrite
    rcases Option.map_eq_some_iff.mp hSent with ⟨rest, hRest, hSame⟩
    cases rest with
    | error e => cases hSame
    | ok rest =>
      cases hSame
      rcases ih hRest with ⟨hAll, hIndices, hIds⟩
      refine ⟨?_, ?_, ?_⟩
      · exact List.forall_mem_cons.mpr ⟨⟨scripthash, hHash, hWrite⟩, hAll⟩
      · rw [List.map_cons, hIndices]
      · exact List.forall_mem_cons.mpr ⟨rfl, hIds⟩

theorem sendRequests_of_sent (hAll : ∀ index ∈ indices, Sent deps session inputs index) :
    ∃ awaiting, sendRequests deps session inputs indices = some (.ok awaiting) := by
  induction indices with
  | nil => exact ⟨[], rfl⟩
  | cons index indices ih =>
    rw [List.forall_mem_cons] at hAll
    rcases hAll with ⟨⟨scripthash, hHash, hWrite⟩, hAll⟩
    rcases ih hAll with ⟨awaiting, hRest⟩
    unfold sendRequests
    simp only [hHash, hWrite, hRest]
    exact ⟨_, rfl⟩

theorem sendRequests_eq_none_iff :
    sendRequests deps session inputs indices = none ↔
    ∃ before index after,
      indices = before ++ index :: after ∧
        (∀ earlier ∈ before, Sent deps session inputs earlier) ∧
        WriteStalls deps session inputs index := by
  induction indices with
  | nil =>
    constructor
    · intro hNone
      cases hNone
    · rintro ⟨before, index, after, hSplit, -⟩
      exact absurd hSplit.symm (List.append_ne_nil_of_right_ne_nil _ (List.cons_ne_nil _ _))
  | cons first indices ih =>
    constructor
    · intro hNone
      unfold sendRequests at hNone
      split at hNone
      · cases hNone
      rename_i scripthash hHash
      split at hNone
      · rename_i hWrite
        exact ⟨[], first, indices, rfl, List.forall_mem_nil _, scripthash, hHash, hWrite⟩
      · cases hNone
      · rename_i hWrite
        rcases ih.mp (Option.map_eq_none_iff.mp hNone) with
          ⟨before, index, after, hSplit, hSent, hStalls⟩
        exact ⟨first :: before, index, after, congrArg (first :: ·) hSplit,
            List.forall_mem_cons.mpr ⟨⟨scripthash, hHash, hWrite⟩, hSent⟩, hStalls⟩
    · rintro ⟨before, index, after, hSplit, hSent, hStalls⟩
      cases before with
      | nil =>
        cases hSplit
        rcases hStalls with ⟨scripthash, hHash, hWrite⟩
        unfold sendRequests
        simp only [hHash, hWrite]
      | cons other before =>
        cases hSplit
        rw [List.forall_mem_cons] at hSent
        rcases hSent with ⟨⟨scripthash, hHash, hWrite⟩, hSent⟩
        have hRest := ih.mpr ⟨before, index, after, rfl, hSent, hStalls⟩
        unfold sendRequests
        simp only [hHash, hWrite, hRest, Option.map_none]

theorem openBatch_eq_none_iff :
    openBatch deps session inputs = none ↔ Stalled deps session inputs := by
  unfold openBatch Stalled
  cases session.connect with
  | none => exact ⟨fun _ => .inl rfl, fun _ => rfl⟩
  | some result =>
    cases result with
    | error e =>
      constructor
      · intro hNone
        cases hNone
      · rintro (hNone | ⟨hOk, -⟩)
        · cases hNone
        · cases hOk
    | ok connected =>
      dsimp only
      rw [sendRequests_eq_none_iff]
      constructor
      · intro hStalls
        exact .inr ⟨rfl, hStalls⟩
      · rintro (hNone | ⟨-, hStalls⟩)
        · cases hNone
        · exact hStalls

theorem openBatch_ok (hOpen : openBatch deps session inputs = some (.ok awaiting)) :
    Opens deps session inputs ∧ Settled [] (startBatch inputs.length awaiting) := by
  unfold openBatch at hOpen
  split at hOpen
  · cases hOpen
  · cases hOpen
  rename_i hConnect
  rcases sendRequests_ok hOpen with ⟨hSent, hIndices, hIds⟩
  refine ⟨⟨hConnect, fun index => hSent index (List.mem_finRange index)⟩, ?_⟩
  constructor
  · exact hIds
  · intro index
    change index ∈ awaiting.map Awaited.index ↔ ¬ Answered [] index.val
    rw [hIndices]
    exact ⟨fun _ => List.not_mem_nil, fun _ => List.mem_finRange index⟩
  · change (awaiting.map Awaited.index).Nodup
    rw [hIndices]
    exact List.nodup_finRange _
  · intro index
    exact Vector.getElem_replicate _
  · have hLength := congrArg List.length hIndices
    rw [List.length_map, List.length_finRange] at hLength
    exact hLength.symm
  · intro index hAnswered
    exact absurd hAnswered List.not_mem_nil

theorem openBatch_of_opens (hOpens : Opens deps session inputs) :
    ∃ awaiting, openBatch deps session inputs = some (.ok awaiting) := by
  rcases sendRequests_of_sent
    (fun index (_ : index ∈ List.finRange inputs.length) => hOpens.2 index) with ⟨awaiting, hSent⟩
  refine ⟨awaiting, ?_⟩
  unfold openBatch
  rw [hOpens.1]
  exact hSent

end ElectrumInput

end OptnWallet.Fusion
