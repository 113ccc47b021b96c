import OptnWallet.Fusion.ElectrumInput.Batches

/-
  When own inputs are valid: what a batch says of each of them against what a lookup of its own
  says, and what all servers say together.

  Main declarations:
    * `ElectrumInput.BatchVerdicts`
    * `ElectrumInput.Confirmed`
    * `ElectrumInput.FirstBatchSays`
    * `ElectrumInput.revalidates_iff`
-/

--- Verdicts

namespace OptnWallet.Fusion

namespace ElectrumInput

open StagedUpdate

variable {Point : Type} {deps : Dependencies Point} {session : Session}
variable {inputs : List InputComponent}

theorem filterMap_zipIdx_some {β : Type} (values : List β) (start : Nat) :
    ((values.map some).zipIdx start).filterMap
        (fun entry => entry.1.map (fun result => (entry.2, result))) =
      (values.zipIdx start).map Prod.swap := by
  induction values generalizing start with
  | nil => rfl
  | cons value values ih =>
    rw [List.map_cons, List.zipIdx_cons, List.zipIdx_cons, List.map_cons, ← ih (start + 1)]
    rfl

/- Where nothing is waited for, every input has one verdict. -/
theorem verdicts_eq {count : Nat} {state : BatchState count}
    {value : Fin count → Except String InputLookup}
    (hAll : ∀ index, state.results.get index = some (value index)) :
    state.verdicts = (List.finRange count).map (fun index => (index.val, value index)) := by
  have hList : state.results.toList = ((List.finRange count).map value).map some := by
    apply List.ext_getElem
    · simp
    · intro i hLeft hRight
      rw [Vector.length_toList] at hLeft
      simp only [Vector.getElem_toList, List.getElem_map, List.getElem_finRange]
      exact hAll ⟨i, hLeft⟩
  unfold BatchState.verdicts
  rw [hList, filterMap_zipIdx_some]
  apply List.ext_getElem
  · simp
  · intro i hLeft hRight
    simp

/- The same answer on a connection of its own, where it has the id of the only request. -/
theorem verifyInput_of_answer {input : InputComponent} {response : ListUnspentResponse}
    {scripthash : String} {line : List UInt8} (hConnect : session.connect = some (.ok ()))
    (hHash : electrumScripthash deps input.pubkey = .ok scripthash)
    (hWrite : session.write (listUnspentRequest 1 scripthash) = some (.ok ()))
    (hRead : readResponse session = some (.ok line))
    (hParse : parseLine deps line = .ok { response with id := 1 }) :
    verifyInput deps session input = verdict response input := by
  unfold verifyInput exchange
  simp only [hConnect, hHash, hWrite, hRead, Option.map_some]
  change ((judgeLine deps 1 input line).map Prod.snd) = verdict response input
  unfold judgeLine verdict
  rw [bind_of_ok hParse, if_neg (not_not.mpr rfl)]
  cases displayTxid input with
  | error e => rfl
  | ok txid =>
    change Except.map Prod.snd
        (parseListunspentResponse response txid input >>= fun lookup => .ok (1, lookup)) =
      parseListunspentResponse response txid input
    cases parseListunspentResponse response txid input with
    | error e => rfl
    | ok lookup => rfl

/- The verdicts of a batch: one for each input, from the first answer to it, and the one that a
   lookup of its own makes of the same answer. -/
def BatchVerdicts (deps : Dependencies Point) (session : Session) (inputs : List InputComponent)
    (results : List (Nat × Except String InputLookup)) : Prop :=
  ∃ count responses position,
    responsesFrom deps session count 0 = .ok (responses, position) ∧
      ∃ value : Fin inputs.length → Except String InputLookup,
        results = (List.finRange inputs.length).map (fun index => (index.val, value index)) ∧
          ∀ index,
            ∃ response,
              answerTo responses index.val = some response ∧ ∀ single line scripthash,
                  single.connect = some (.ok ()) →
                    electrumScripthash deps (inputs.get index).pubkey = .ok scripthash →
                    single.write (listUnspentRequest 1 scripthash) = some (.ok ()) →
                    readResponse single = some (.ok line) →
                    parseLine deps line = .ok { response with id := 1 } →
                      verifyInput deps single (inputs.get index) = value index

/- What is settled when nothing is waited for. -/
theorem Settled.verdicts {seen : List ListUnspentResponse} {state : BatchState inputs.length}
    (hSettled : Settled seen state) (hDone : state.remaining = 0) :
    ∃ value : Fin inputs.length → Except String InputLookup,
    state.verdicts = (List.finRange inputs.length).map (fun index => (index.val, value index)) ∧
      ∀ index,
        ∃ response,
          answerTo seen index.val = some response ∧
            value index = verdict response (inputs.get index) := by
  have hAll := hSettled.remaining_eq_zero_iff.mp hDone
  have hValue :
      ∀ index : Fin inputs.length,
      ∃ result response,
        state.results.get index = some result ∧ answerTo seen index.val = some response ∧
          result = verdict response (inputs.get index) := by
    intro index
    cases hAnswer : answerTo seen index.val with
    | none => exact absurd (hAll index.val index.isLt) (answerTo_eq_none_iff.mp hAnswer)
    | some response =>
      have hResult := hSettled.results index
      rw [hAnswer] at hResult
      exact ⟨_, response, hResult, rfl, rfl⟩
  choose value response hGet hAnswer hSame using hValue
  exact ⟨value, verdicts_eq hGet, fun index => ⟨response index, hAnswer index, hSame index⟩⟩

theorem batchVerifyInputs_of_open {awaiting : List (Awaited inputs.length)}
    (hOpen : openBatch deps session inputs = some (.ok awaiting)) (lines : Nat) :
    batchVerifyInputs deps session inputs lines =
      (batchLoop deps session inputs lines (startBatch inputs.length awaiting)).map
        (fun done => done.map BatchState.verdicts) := by
  unfold batchVerifyInputs
  rw [hOpen]

theorem batch_verdicts {lines : Nat} {results : List (Nat × Except String InputLookup)}
    (hOk : batchVerifyInputs deps session inputs lines = some (.ok results)) :
    BatchVerdicts deps session inputs results := by
  unfold batchVerifyInputs at hOk
  split at hOk
  · cases hOk
  · cases hOk
  rename_i awaiting hOpen
  rcases Option.map_eq_some_iff.mp hOk with ⟨done, hDone, hSame⟩
  cases done with
  | error e => cases hSame
  | ok final =>
    cases hSame
    rcases batchLoop_ok (openBatch_ok hOpen).2 hDone with
      ⟨hZero, count, responses, -, hRead, hFinal⟩
    rcases hFinal.verdicts hZero with ⟨value, hVerdicts, hAnswers⟩
    refine ⟨count, responses, final.position, hRead, value, hVerdicts, ?_⟩
    intro index
    rcases hAnswers index with ⟨response, hAnswer, hSame⟩
    refine ⟨response, hAnswer, ?_⟩
    intro single line scripthash hConnect hHash hWrite hLine hParse
    rw [hSame]
    exact verifyInput_of_answer hConnect hHash hWrite hLine hParse

--- Lines Of A Batch

/- A batch is done after so many lines, whatever comes. -/
def ReadsAtMost (deps : Dependencies Point) (lines : Nat) (session : Session)
    (inputs : List InputComponent) : Prop :=
  ∀ awaiting,
    openBatch deps session inputs = some (.ok awaiting) → ∃ result,
        batchLoop deps session inputs lines (startBatch inputs.length awaiting) = some result

theorem readsAtMost_iff :
    ReadsAtMost deps inputs.length session inputs ↔
    (Opens deps session inputs → AnswersInTime deps session inputs) := by
  constructor
  · intro hReads hOpens responses position hRead hDisplayed
    rcases openBatch_of_opens hOpens with ⟨awaiting, hOpen⟩
    rcases hReads awaiting hOpen with ⟨result, hDone⟩
    by_contra hNot
    rw [batchLoop_waits (openBatch_ok hOpen).2 hRead hDisplayed hNot] at hDone
    cases hDone
  · intro hTime awaiting hOpen
    rcases openBatch_ok hOpen with ⟨hOpens, hSettled⟩
    cases hLoop : batchLoop deps session inputs inputs.length
      (startBatch inputs.length awaiting) with
    | some result => exact ⟨result, rfl⟩
    | none =>
      rcases batchLoop_eq_none hSettled hLoop with ⟨responses, position, hRead, hDisplayed, hNot⟩
      exact absurd (hTime hOpens responses position hRead hDisplayed) hNot

/- The first lines of a server answer every input. -/
structure Through (deps : Dependencies Point) (session : Session) (inputs : List InputComponent)
    (responses : List ListUnspentResponse) : Prop where
  opens : Opens deps session inputs
  read : ∃ position, responsesFrom deps session inputs.length 0 = .ok (responses, position)
  displayed : Displayed responses inputs
  answered : ∀ index < inputs.length, Answered responses index

/- Every input is answered with a match. -/
def AllMatch (inputs : List InputComponent) (responses : List ListUnspentResponse) : Prop :=
  ∀ index : Fin inputs.length,
    ∃ response,
      answerTo responses index.val = some response ∧
        verdict response (inputs.get index) = .ok .matched

/- A batch that succeeds has read as many lines as it has inputs. -/
theorem through_of_ok {state final : BatchState inputs.length} (hOpens : Opens deps session inputs)
    (hSettled : Settled [] state) (hStart : state.position = 0)
    (hLoop : batchLoop deps session inputs inputs.length state = some (.ok final)) :
    ∃ responses,
    Through deps session inputs responses ∧
      ((∀ result ∈ final.verdicts, result.2 = .ok .matched) ↔ AllMatch inputs responses) := by
  rcases batchLoop_ok hSettled hLoop with ⟨hZero, count, responses, hCount, hRead, hFinal⟩
  rw [List.nil_append] at hFinal
  rw [hStart] at hRead
  have hAll := hFinal.remaining_eq_zero_iff.mp hZero
  have hLength : responses.length = count := length_responsesFrom hRead
  have hEnough := length_le_of_answered hAll
  have hExact : count = inputs.length := by omega
  rw [hExact] at hRead
  refine ⟨responses, ⟨hOpens, ⟨_, hRead⟩, hFinal.displayed, hAll⟩, ?_⟩
  rcases hFinal.verdicts hZero with ⟨value, hVerdicts, hAnswers⟩
  rw [hVerdicts, List.forall_mem_map]
  constructor
  · intro hMatched index
    rcases hAnswers index with ⟨response, hAnswer, hSame⟩
    have hHere := hMatched index (List.mem_finRange index)
    exact ⟨response, hAnswer, hSame.symm.trans hHere⟩
  · intro hMatch index _
    rcases hAnswers index with ⟨response, hAnswer, hSame⟩
    rcases hMatch index with ⟨other, hOther, hMatched⟩
    rw [hAnswer] at hOther
    cases hOther
    exact hSame.trans hMatched

/- The batch ends without an answer to every input. -/
structure Fails (deps : Dependencies Point) (session : Session) (inputs : List InputComponent) :
    Prop where
  ends : ¬ Stalled deps session inputs
  unanswered : ∀ responses, ¬ Through deps session inputs responses

theorem Through.not_stalled {responses : List ListUnspentResponse}
    (hThrough : Through deps session inputs responses) : ¬ Stalled deps session inputs := by
  intro hStalled
  rcases openBatch_of_opens hThrough.opens with ⟨awaiting, hOk⟩
  rw [openBatch_eq_none_iff.mpr hStalled] at hOk
  cases hOk

/- How a batch ends that reads no more lines than it has inputs. -/
theorem batch_cases (hReads : ReadsAtMost deps inputs.length session inputs) :
    (Stalled deps session inputs ∧ ∀ lines, batchVerifyInputs deps session inputs lines = none) ∨
    (Fails deps session inputs ∧ ∃ e,
        batchVerifyInputs deps session inputs inputs.length = some (.error e)) ∨
    ∃ responses results,
      Through deps session inputs responses ∧
        batchVerifyInputs deps session inputs inputs.length = some (.ok results) ∧
        ((∀ result ∈ results, result.2 = .ok .matched) ↔ AllMatch inputs responses) := by
  cases hOpen : openBatch deps session inputs with
  | none =>
    refine .inl ⟨openBatch_eq_none_iff.mp hOpen, ?_⟩
    intro lines
    unfold batchVerifyInputs
    rw [hOpen]
  | some opened =>
    right
    have hStalled : ¬ Stalled deps session inputs := by
      intro hStalled
      rw [openBatch_eq_none_iff.mpr hStalled] at hOpen
      cases hOpen
    cases opened with
    | error e =>
      refine .inl ⟨⟨hStalled, ?_⟩, e, ?_⟩
      · intro responses hThrough
        rcases openBatch_of_opens hThrough.opens with ⟨awaiting, hOk⟩
        rw [hOk] at hOpen
        cases hOpen
      · unfold batchVerifyInputs
        rw [hOpen]
    | ok awaiting =>
      rcases openBatch_ok hOpen with ⟨hOpens, hSettled⟩
      rcases hReads awaiting hOpen with ⟨result, hLoop⟩
      have hBatch :
          batchVerifyInputs deps session inputs inputs.length =
            some (result.map BatchState.verdicts) := by
        rw [batchVerifyInputs_of_open hOpen, hLoop, Option.map_some]
      cases result with
      | error e =>
        refine .inl ⟨⟨hStalled, ?_⟩, e, hBatch⟩
        intro responses hThrough
        rcases hThrough.read with ⟨position, hRead⟩
        rcases batchLoop_of_answers hSettled hRead hThrough.displayed hThrough.answered with
          ⟨final, hOk⟩
        rw [hOk] at hLoop
        cases hLoop
      | ok final =>
        right
        rcases through_of_ok hOpens hSettled rfl hLoop with ⟨responses, hThrough, hIff⟩
        exact ⟨responses, final.verdicts, hThrough, hBatch, hIff⟩

--- All Servers

section

variable (deps : Dependencies Point) (servers : List Configured)

/- A server says that an input is valid, and no server before it answers. -/
def ConfirmedBy (index : Nat) (input : InputComponent) : Prop :=
  ∃ before server after,
    servers = before ++ server :: after ∧
      verifyInput deps (server.single index) input = .ok .matched ∧
      ∀ earlier ∈ before, ∃ e, verifyInput deps (earlier.single index) input = .error e

def Confirmed (components : List InputComponent) : Prop :=
  ∀ index : Fin components.length, ConfirmedBy deps servers index.val (components.get index)

end

/- By induction over the servers. -/
theorem verifyInputFrom_eq_matched_iff {servers : List Configured} {index : Nat}
    {input : InputComponent} {lastError : String} :
    verifyInputFrom deps index input servers lastError = .ok .matched ↔
    ConfirmedBy deps servers index input := by
  induction servers generalizing lastError with
  | nil =>
    constructor
    · intro hOk
      cases hOk
    · rintro ⟨before, server, after, hSplit, -⟩
      exact absurd hSplit.symm (List.append_ne_nil_of_right_ne_nil _ (List.cons_ne_nil _ _))
  | cons server servers ih =>
    unfold verifyInputFrom
    cases hHere : verifyInput deps (server.single index) input with
    | ok found =>
      constructor
      · intro hFound
        cases hFound
        exact ⟨[], server, servers, rfl, hHere, List.forall_mem_nil _⟩
      · rintro ⟨before, other, after, hSplit, hMatch, hEarlier⟩
        cases before with
        | nil =>
          cases hSplit
          rw [hMatch] at hHere
          cases hHere
          rfl
        | cons first before =>
          cases hSplit
          rcases hEarlier _ List.mem_cons_self with ⟨e, hError⟩
          rw [hError] at hHere
          cases hHere
    | error e =>
      dsimp only
      rw [ih]
      constructor
      · rintro ⟨before, other, after, hSplit, hMatch, hEarlier⟩
        exact ⟨server :: before, other, after, congrArg (server :: ·) hSplit, hMatch,
            List.forall_mem_cons.mpr ⟨⟨e, hHere⟩, hEarlier⟩⟩
      · rintro ⟨before, other, after, hSplit, hMatch, hEarlier⟩
        cases before with
        | nil =>
          cases hSplit
          rw [hMatch] at hHere
          cases hHere
        | cons first before =>
          cases hSplit
          exact ⟨before, other, after, rfl, hMatch,
            fun earlier hMem => hEarlier earlier (List.mem_cons_of_mem _ hMem)⟩

theorem requireMatch_eq_ok_iff {boundary : String} {lookup : Except String InputLookup} :
    requireMatch boundary lookup = .ok () ↔ lookup = .ok .matched := by
  rcases lookup with e | (_ | reason)
  · constructor <;> intro hSame <;> cases hSame
  · exact ⟨fun _ => rfl, fun _ => rfl⟩
  · constructor <;> intro hSame <;> cases hSame

theorem revalidateEach_eq_ok_iff {servers : List Configured} {components : List InputComponent}
    {boundary : String} :
    revalidateEach deps servers components boundary = .ok () ↔
    Confirmed deps servers components := by
  unfold revalidateEach verifyInputAnywhere
  rw [forM_eq_ok_iff]
  constructor
  · intro hAll index
    have hMem : (components.get index, index.val) ∈ components.zipIdx :=
      List.mk_mem_zipIdx_iff_getElem?.mpr (List.getElem?_eq_getElem index.isLt)
    have hHere := requireMatch_eq_ok_iff.mp (hAll _ hMem)
    exact verifyInputFrom_eq_matched_iff.mp hHere
  · rintro hConfirmed ⟨component, index⟩ hMem
    have hGet := List.mk_mem_zipIdx_iff_getElem?.mp hMem
    rcases List.getElem?_eq_some_iff.mp hGet with ⟨hLt, rfl⟩
    rw [requireMatch_eq_ok_iff]
    exact verifyInputFrom_eq_matched_iff.mpr (hConfirmed ⟨index, hLt⟩)

--- Revalidation

theorem batchVerifyInputs_mono {lines more : Nat}
    {result : Except String (List (Nat × Except String InputLookup))} (hLe : lines ≤ more)
    (hResult : batchVerifyInputs deps session inputs lines = some result) :
    batchVerifyInputs deps session inputs more = some result := by
  unfold batchVerifyInputs at hResult ⊢
  split
  · rename_i hOpen
    rw [hOpen] at hResult
    exact hResult
  · rename_i hOpen
    rw [hOpen] at hResult
    exact hResult
  · rename_i awaiting hOpen
    rw [hOpen] at hResult
    rcases Option.map_eq_some_iff.mp hResult with ⟨done, hDone, hSame⟩
    rw [batchLoop_mono hLe hDone, Option.map_some, hSame]

/- As many lines as there are inputs are enough for what is ever returned. -/
theorem batch_settles {lines : Nat}
    {result : Except String (List (Nat × Except String InputLookup))}
    (hReads : ReadsAtMost deps inputs.length session inputs)
    (hResult : batchVerifyInputs deps session inputs lines = some result) :
    batchVerifyInputs deps session inputs inputs.length = some result := by
  have hEnough : ∃ other, batchVerifyInputs deps session inputs inputs.length = some other := by
    rcases batch_cases hReads with ⟨-, hNone⟩ | ⟨-, e, hError⟩ | ⟨-, results, -, hOk, -⟩
    · rw [hNone lines] at hResult
      cases hResult
    · exact ⟨_, hError⟩
    · exact ⟨_, hOk⟩
  rcases hEnough with ⟨other, hOther⟩
  have hFirst := batchVerifyInputs_mono (Nat.le_max_left lines inputs.length) hResult
  have hSecond := batchVerifyInputs_mono (Nat.le_max_right lines inputs.length) hOther
  rw [hFirst] at hSecond
  rw [hOther, hSecond]

theorem revalidateFrom_settles {components : List InputComponent} {boundary : String}
    {fallback : Except String Unit} {lines : Nat} {servers : List Configured}
    {result : Except String Unit}
    (hReads : ∀ server ∈ servers, ReadsAtMost deps components.length server.batch components)
    (hResult : revalidateFrom deps components boundary lines fallback servers = some result) :
    revalidateFrom deps components boundary components.length fallback servers = some result := by
  induction servers with
  | nil => exact hResult
  | cons server servers ih =>
    rw [List.forall_mem_cons] at hReads
    unfold revalidateFrom at hResult ⊢
    cases hBatch : batchVerifyInputs deps server.batch components lines with
    | none =>
      rw [hBatch] at hResult
      cases hResult
    | some batch =>
      rw [hBatch] at hResult
      rw [batch_settles hReads.1 hBatch]
      cases batch with
      | error e => exact ih hReads.2 hResult
      | ok results => exact hResult

/- Where a batch of one of the servers ends the search, it says of the inputs what they all say
   together. -/
def FirstBatchSays (deps : Dependencies Point) (servers : List Configured)
    (components : List InputComponent) (valid : Prop) : Prop :=
  ∀ before server after,
    servers = before ++ server :: after →
      (∀ earlier ∈ before, Fails deps earlier.batch components) →
      (Stalled deps server.batch components → ¬ valid) ∧ ∀ responses,
          Through deps server.batch components responses → (AllMatch components responses ↔ valid)

/- By induction over the servers, with one case for each way that a batch ends. -/
theorem revalidateFrom_iff {components : List InputComponent} {boundary : String}
    {fallback : Except String Unit} {servers : List Configured} {valid : Prop}
    (hReads : ∀ server ∈ servers, ReadsAtMost deps components.length server.batch components)
    (hFallback : fallback = .ok () ↔ valid) :
    (revalidateFrom deps components boundary components.length fallback servers = some (.ok ()) ↔
        valid) ↔
    FirstBatchSays deps servers components valid := by
  induction servers with
  | nil =>
    constructor
    · rintro - before server after hSplit
      exact absurd hSplit.symm (List.append_ne_nil_of_right_ne_nil _ (List.cons_ne_nil _ _))
    · intro _
      unfold revalidateFrom
      rw [Option.some_inj]
      exact hFallback
  | cons server servers ih =>
    rw [List.forall_mem_cons] at hReads
    unfold revalidateFrom
    rcases batch_cases hReads.1 with ⟨hStalled, hNone⟩ | ⟨hFails, e, hError⟩ |
      ⟨responses, results, hThrough, hOk, hMatch⟩
    · rw [hNone]
      constructor
      · intro hSays before other after hSplit hEarlier
        cases before with
        | nil =>
          cases hSplit
          refine
            ⟨fun _ hValid => ?_, fun responses hThrough => absurd hStalled hThrough.not_stalled⟩
          cases hSays.mpr hValid
        | cons first before =>
          cases hSplit
          exact absurd hStalled (hEarlier _ List.mem_cons_self).ends
      · intro hFirst
        have hNot := (hFirst [] server servers rfl (List.forall_mem_nil _)).1 hStalled
        constructor
        · intro hSome
          cases hSome
        · intro hValid
          exact absurd hValid hNot
    · rw [hError]
      refine (ih hReads.2).trans ?_
      constructor
      · intro hRest before other after hSplit hEarlier
        cases before with
        | nil =>
          cases hSplit
          exact ⟨fun hStalled =>
            absurd hStalled hFails.ends, fun responses hThrough => absurd hThrough
              (hFails.unanswered responses)⟩
        | cons first before =>
          cases hSplit
          exact hRest before other after rfl
            (fun earlier hMem => hEarlier earlier (List.mem_cons_of_mem _ hMem))
      · intro hFirst before other after hSplit hEarlier
        exact hFirst (server :: before) other after (congrArg (server :: ·) hSplit)
            (List.forall_mem_cons.mpr ⟨hFails, hEarlier⟩)
    · rw [hOk]
      have hJudged :
          results.forM (fun result => requireMatch boundary result.2) = .ok () ↔
            AllMatch components responses := by
        rw [forM_eq_ok_iff, ← hMatch]
        simp only [requireMatch_eq_ok_iff]
      dsimp only
      rw [Option.some_inj, hJudged]
      constructor
      · intro hSays before other after hSplit hEarlier
        cases before with
        | nil =>
          cases hSplit
          refine ⟨fun hStalled => absurd hStalled hThrough.not_stalled, ?_⟩
          intro others hOthers
          rcases hThrough.read with ⟨_, hRead⟩
          rcases hOthers.read with ⟨_, hOther⟩
          rw [hRead] at hOther
          cases hOther
          exact hSays
        | cons first before =>
          cases hSplit
          exact absurd hThrough ((hEarlier _ List.mem_cons_self).unanswered responses)
      · intro hFirst
        exact (hFirst [] server servers rfl (List.forall_mem_nil _)).2 responses hThrough

--- Consistent Servers

/- A server answers a lookup as it answers the batch, and where it fails the batch it fails every
   lookup. -/
structure Alike (deps : Dependencies Point) (server : Configured)
    (components : List InputComponent) : Prop where
  answers :
    ∀ responses,
    Through deps server.batch components responses → ∀ index : Fin components.length,
        ∀ response,
          answerTo responses index.val = some response → ∀ lookup,
              verdict response (components.get index) = .ok lookup ↔
                verifyInput deps (server.single index.val) (components.get index) = .ok lookup
  fails :
    (∀ responses, ¬ Through deps server.batch components responses) →
    ∀ index : Fin components.length,
      ∃ e, verifyInput deps (server.single index.val) (components.get index) = .error e

/- An input is confirmed by the batch, or the batch has an error for it and later servers confirm
   it. -/
def ConfirmedLater (deps : Dependencies Point) (after : List Configured)
    (components : List InputComponent) (responses : List ListUnspentResponse)
    (index : Fin components.length) : Prop :=
  ∃ response,
    answerTo responses index.val = some response ∧
      (verdict response (components.get index) = .ok .matched ∨
        (∃ e, verdict response (components.get index) = .error e) ∧
          ConfirmedBy deps after index.val (components.get index))

/- No server whose batch ends the search leaves an error to be resolved by the servers behind it. -/
def NoErrorConfirmedLater (deps : Dependencies Point) (servers : List Configured)
    (components : List InputComponent) : Prop :=
  ∀ before server after,
    servers = before ++ server :: after →
      (∀ earlier ∈ before, Fails deps earlier.batch components) →
      (Stalled deps server.batch components → ¬ Confirmed deps after components) ∧ ∀ responses,
          Through deps server.batch components responses →
            (∀ index, ConfirmedLater deps after components responses index) →
            AllMatch components responses

/- Servers that only fail can be left out. -/
theorem confirmedBy_append_iff {before : List Configured} {server : Configured}
    {after : List Configured} {index : Nat} {input : InputComponent}
    (hBefore : ∀ earlier ∈ before, ∃ e, verifyInput deps (earlier.single index) input = .error e) :
    ConfirmedBy deps (before ++ server :: after) index input ↔
    verifyInput deps (server.single index) input = .ok .matched ∨
      (∃ e, verifyInput deps (server.single index) input = .error e) ∧
        ConfirmedBy deps after index input := by
  have hSkip :
      ∀ lastError,
      ∃ last,
        verifyInputFrom deps index input (before ++ server :: after) lastError =
          verifyInputFrom deps index input (server :: after) last := by
    induction before with
    | nil => exact fun lastError => ⟨lastError, rfl⟩
    | cons first before ih =>
      rw [List.forall_mem_cons] at hBefore
      rcases hBefore.1 with ⟨e, hError⟩
      intro lastError
      rw [List.cons_append, verifyInputFrom, hError]
      exact ih hBefore.2 _
  rcases hSkip "" with ⟨last, hLast⟩
  have hIff := @verifyInputFrom_eq_matched_iff Point deps (before ++ server :: after) index input ""
  rw [← hIff, hLast, verifyInputFrom]
  cases hHere : verifyInput deps (server.single index) input with
  | ok found =>
    constructor
    · exact .inl
    · rintro (hFound | ⟨⟨e, hError⟩, -⟩)
      · exact hFound
      · cases hError
  | error e =>
    dsimp only
    rw [verifyInputFrom_eq_matched_iff]
    constructor
    · exact fun hLater => .inr ⟨⟨e, rfl⟩, hLater⟩
    · rintro (hFound | ⟨-, hLater⟩)
      · cases hFound
      · exact hLater

/- A verdict is an error where no lookup comes of it. -/
theorem exists_error_iff {result other : Except String InputLookup}
    (hSame : ∀ lookup, result = .ok lookup ↔ other = .ok lookup) :
    (∃ e, result = .error e) ↔ ∃ e, other = .error e := by
  cases result with
  | error e =>
    cases other with
    | error e' => exact ⟨fun _ => ⟨e', rfl⟩, fun _ => ⟨e, rfl⟩⟩
    | ok lookup => cases (hSame lookup).mpr rfl
  | ok lookup => rw [(hSame lookup).mp rfl]

theorem confirmedLater_iff {server : Configured} {after : List Configured}
    {components : List InputComponent} {responses : List ListUnspentResponse}
    (hServer : Alike deps server components)
    (hThrough : Through deps server.batch components responses) (index : Fin components.length) :
    ConfirmedLater deps after components responses index ↔
    verifyInput deps (server.single index.val) (components.get index) = .ok .matched ∨
      (∃ e, verifyInput deps (server.single index.val) (components.get index) = .error e) ∧
        ConfirmedBy deps after index.val (components.get index) := by
  unfold ConfirmedLater
  cases hAnswer : answerTo responses index.val with
  | none => exact absurd (hThrough.answered index.val index.isLt) (answerTo_eq_none_iff.mp hAnswer)
  | some response =>
    have hSame := hServer.answers responses hThrough index response hAnswer
    simp only [Option.some_inj, exists_eq_left']
    rw [hSame, exists_error_iff hSame]

theorem firstBatchSays_iff_of_alike {servers : List Configured} {components : List InputComponent}
    (hAlike : ∀ server ∈ servers, Alike deps server components) :
    FirstBatchSays deps servers components (Confirmed deps servers components) ↔
    NoErrorConfirmedLater deps servers components := by
  unfold FirstBatchSays NoErrorConfirmedLater
  refine forall_congr' fun before => ?_
  refine forall_congr' fun server => ?_
  refine forall_congr' fun after => ?_
  refine imp_congr_right ?_
  rintro rfl
  refine imp_congr_right fun hBefore => ?_
  have hEarlier :
      ∀ index : Fin components.length,
      ∀ earlier ∈ before,
        ∃ e, verifyInput deps (earlier.single index.val) (components.get index) = .error e := by
    intro index earlier hMem
    exact
      (hAlike earlier (List.mem_append_left _ hMem)).fails (hBefore earlier hMem).unanswered index
  have hServer := hAlike server (List.mem_append_right _ List.mem_cons_self)
  apply and_congr
  · refine imp_congr_right fun hStalled => not_congr ?_
    have hFails := hServer.fails (fun responses hThrough => hThrough.not_stalled hStalled)
    refine forall_congr' fun index => ?_
    rw [confirmedBy_append_iff (hEarlier index)]
    rcases hFails index with ⟨e, hError⟩
    constructor
    · rintro (hFound | ⟨-, hLater⟩)
      · rw [hError] at hFound
        cases hFound
      · exact hLater
    · exact fun hLater => .inr ⟨⟨e, hError⟩, hLater⟩
  · refine forall_congr' fun responses => ?_
    refine imp_congr_right fun hThrough => ?_
    have hConfirmed :
        Confirmed deps (before ++ server :: after) components ↔
        ∀ index, ConfirmedLater deps after components responses index := by
      refine forall_congr' fun index => ?_
      rw [confirmedBy_append_iff (hEarlier index)]
      exact (confirmedLater_iff hServer hThrough index).symm
    have hLater :
        AllMatch components responses →
        ∀ index, ConfirmedLater deps after components responses index := by
      intro hAll index
      rcases hAll index with ⟨response, hAnswer, hMatched⟩
      exact ⟨response, hAnswer, .inl hMatched⟩
    rw [hConfirmed]
    exact ⟨fun hSame => hSame.mpr, fun hBack => ⟨hLater, hBack⟩⟩

--- Own Inputs

/- What is asked of the lookups of own inputs: that batches read no more lines than there are
   inputs, that they give every input the verdict of a lookup of its own, and that the wallet goes
   on exactly when the servers, one after another, confirm every input. -/
structure Revalidates (deps : Dependencies Point) (keys : List FusionInputKey)
    (servers : List Configured) (boundary : String) : Prop where
  bounded :
    ∀ components,
    keys.mapM componentOf = .ok components →
      ∀ server ∈ servers, ReadsAtMost deps components.length server.batch components
  verdicts :
    ∀ components,
    keys.mapM componentOf = .ok components → ∀ server ∈ servers,
        ∀ lines results,
          batchVerifyInputs deps server.batch components lines = some (.ok results) →
            BatchVerdicts deps server.batch components results
  agrees :
    (∃ lines, revalidateOwnInputs deps keys servers boundary lines = some (.ok ())) ↔
    ∃ components, keys.mapM componentOf = .ok components ∧ Confirmed deps servers components

theorem boundary_agrees_iff {keys : List FusionInputKey} {servers : List Configured} {boundary : String}
    {components : List InputComponent} (hKeys : keys.mapM componentOf = .ok components)
    (hReads : ∀ server ∈ servers, ReadsAtMost deps components.length server.batch components) :
    ((∃ lines, revalidateOwnInputs deps keys servers boundary lines = some (.ok ())) ↔ ∃ components,
        keys.mapM componentOf = .ok components ∧ Confirmed deps servers components) ↔
    FirstBatchSays deps servers components (Confirmed deps servers components) := by
  have hConfirmed :
      (∃ components, keys.mapM componentOf = .ok components ∧ Confirmed deps servers components) ↔
      Confirmed deps servers components := by
    rw [hKeys]
    constructor
    · rintro ⟨other, hSame, hOther⟩
      cases hSame
      exact hOther
    · exact fun hHere => ⟨components, rfl, hHere⟩
  have hLines :
      (∃ lines, revalidateOwnInputs deps keys servers boundary lines = some (.ok ())) ↔
      revalidateFrom deps components boundary components.length
          (revalidateEach deps servers components boundary) servers = some (.ok ()) := by
    unfold revalidateOwnInputs
    simp only [hKeys]
    constructor
    · rintro ⟨lines, hOk⟩
      exact revalidateFrom_settles hReads hOk
    · exact fun hOk => ⟨components.length, hOk⟩
  rw [hConfirmed, hLines]
  exact revalidateFrom_iff hReads revalidateEach_eq_ok_iff

theorem revalidates_iff (keys : List FusionInputKey) (servers : List Configured)
    (boundary : String) :
    (∀ session inputs,
        (ReadsAtMost deps inputs.length session inputs ↔
              (Opens deps session inputs → AnswersInTime deps session inputs)) ∧
          ∀ lines results,
            batchVerifyInputs deps session inputs lines = some (.ok results) →
              BatchVerdicts deps session inputs results) ∧
    (Revalidates deps keys servers boundary ↔ ∀ components,
        keys.mapM componentOf = .ok components → (∀ server ∈ servers,
                Opens deps server.batch components → AnswersInTime deps server.batch components) ∧
            FirstBatchSays deps servers components (Confirmed deps servers components)) ∧
    ∀ components,
      (∀ server ∈ servers, Alike deps server components) →
        (FirstBatchSays deps servers components (Confirmed deps servers components) ↔
          NoErrorConfirmedLater deps servers components) := by
  refine ⟨fun session inputs =>
    ⟨readsAtMost_iff, fun lines results => batch_verdicts⟩, ?_, fun components hAlike =>
      firstBatchSays_iff_of_alike hAlike⟩
  constructor
  · intro hSound components hKeys
    have hReads := hSound.bounded components hKeys
    refine ⟨fun server hMem => readsAtMost_iff.mp (hReads server hMem), ?_⟩
    exact (boundary_agrees_iff hKeys hReads).mp hSound.agrees
  · intro hCondition
    refine ⟨fun components hKeys server hMem =>
      readsAtMost_iff.mpr ((hCondition components hKeys).1 server hMem), fun components hKeys server
        hMem lines results => batch_verdicts, ?_⟩
    cases hKeys : keys.mapM componentOf with
    | error e =>
      constructor
      · rintro ⟨lines, hOk⟩
        unfold revalidateOwnInputs at hOk
        rw [hKeys] at hOk
        cases hOk
      · rintro ⟨components, hSome, -⟩
        cases hSome
    | ok components =>
      rcases hCondition components hKeys with ⟨hTime, hFirst⟩
      rw [← hKeys]
      exact
        (boundary_agrees_iff hKeys (fun server hMem => readsAtMost_iff.mpr (hTime server hMem))).mpr hFirst

--- Servers That Repeat A Line

/- A connection on which one line comes again and again. -/
def repeating (line : List UInt8) : Session where
  connect := some (.ok ())
  write := fun _ => some (.ok ())
  read := fun position =>
    match (line)[position % line.length]? with
    | some value => .byte value
    | none => .closed

/- From a position on, the bytes of a line come. -/
def Sends (read : Nat → ReadEvent) (position : Nat) (line : List UInt8) : Prop :=
  ∀ k value, (line)[k]? = some value → read (position + k) = .byte value

theorem repeating_sends (line : List UInt8) (times : Nat) :
    Sends (repeating line).read (times * line.length) line := by
  intro k value hGet
  have hLt : k < line.length := (List.getElem?_eq_some_iff.mp hGet).1
  unfold repeating
  dsimp only
  rw [Nat.mul_comm times, Nat.mul_add_mod, Nat.mod_eq_of_lt hLt, hGet]

theorem Sends.head {read : Nat → ReadEvent} {position : Nat} {value : UInt8} {line : List UInt8}
    (hSends : Sends read position (value :: line)) : read position = .byte value :=
  hSends 0 value rfl

theorem Sends.tail {read : Nat → ReadEvent} {position : Nat} {value : UInt8} {line : List UInt8}
    (hSends : Sends read position (value :: line)) : Sends read (position + 1) line := by
  intro k other hGet
  have hHere := hSends (k + 1) other hGet
  rw [Nat.add_right_comm]
  exact hHere

/- By induction over the bytes in front of the line feed. -/
theorem readLine_of_sends {read : Nat → ReadEvent} {room position : Nat}
    {front response : List UInt8} (hFree : 0x0a ∉ front) (hRoom : front.length < room)
    (hSends : Sends read position (front ++ [0x0a])) :
    readLine read room position response =
      .ok (response ++ (front ++ [0x0a]), position + (front.length + 1)) := by
  induction front generalizing room position response with
  | nil =>
    cases room with
    | zero => exact absurd hRoom (Nat.not_lt_zero _)
    | succ room =>
      unfold readLine
      rw [hSends.head]
      rfl
  | cons value front ih =>
    rw [List.mem_cons, not_or] at hFree
    cases room with
    | zero => exact absurd hRoom (Nat.not_lt_zero _)
    | succ room =>
      have hRest :=
        @ih room (position + 1) (response ++ [value]) hFree.2 (Nat.lt_of_succ_lt_succ hRoom)
          hSends.tail
      unfold readLine
      rw [hSends.head]
      dsimp only
      rw [if_neg (Ne.symm hFree.1), hRest, List.append_assoc, List.length_cons, Nat.add_assoc,
        Nat.add_comm 1]
      rfl

theorem readUntil_of_sends {read : Nat → ReadEvent} {room position : Nat}
    {front response : List UInt8} (hFree : 0x0a ∉ front) (hRoom : front.length < room)
    (hSends : Sends read position (front ++ [0x0a])) :
    readUntil read room position response = some (.ok (response ++ (front ++ [0x0a]))) := by
  induction front generalizing room position response with
  | nil =>
    cases room with
    | zero => exact absurd hRoom (Nat.not_lt_zero _)
    | succ room =>
      unfold readUntil
      rw [hSends.head]
      rfl
  | cons value front ih =>
    rw [List.mem_cons, not_or] at hFree
    cases room with
    | zero => exact absurd hRoom (Nat.not_lt_zero _)
    | succ room =>
      have hRest :=
        @ih room (position + 1) (response ++ [value]) hFree.2 (Nat.lt_of_succ_lt_succ hRoom)
          hSends.tail
      unfold readUntil
      rw [hSends.head]
      dsimp only
      rw [if_neg (Ne.symm hFree.1), hRest, List.append_assoc]
      rfl

/- A line as a server repeats it. -/
structure IsLine (deps : Dependencies Point) (front : List UInt8) (response : ListUnspentResponse) :
    Prop where
  free : 0x0a ∉ front
  short : front.length < maxResponseBytes
  parsed : deps.parseResponse (front ++ [0x0a]) = .ok response

theorem IsLine.parseLine {front : List UInt8} {response : ListUnspentResponse}
    (hLine : IsLine deps front response) : parseLine deps (front ++ [0x0a]) = .ok response := by
  have hCheck : checkLine (front ++ [0x0a]) = .ok () := by
    have hShort := hLine.short
    unfold checkLine
    rw [List.length_append, List.length_singleton, if_neg (by omega), List.getLast?_concat,
      if_neg (not_not.mpr rfl)]
  unfold ElectrumInput.parseLine
  rw [bind_of_ok hCheck, hLine.parsed]
  rfl

theorem responsesFrom_repeating {front : List UInt8} {response : ListUnspentResponse}
    (hLine : IsLine deps front response) (lines times : Nat) :
    responsesFrom deps (repeating (front ++ [0x0a])) lines (times * (front.length + 1)) =
      .ok (List.replicate lines response, (times + lines) * (front.length + 1)) := by
  induction lines generalizing times with
  | zero => rfl
  | succ lines ih =>
    have hSends := repeating_sends (front ++ [0x0a]) times
    rw [List.length_append, List.length_singleton] at hSends
    have hNext :
        nextResponse deps (repeating (front ++ [0x0a])) (times * (front.length + 1)) =
          .ok (response, (times + 1) * (front.length + 1)) := by
      unfold nextResponse
      rw [readLine_of_sends hLine.free hLine.short hSends, Nat.succ_mul]
      exact bind_of_ok hLine.parseLine _
    rw [responsesFrom, bind_of_ok hNext, bind_of_ok (ih (times + 1)), List.replicate_succ,
      Nat.add_right_comm]
    rfl

/- The key of the generator. -/
def samplePubkey : List UInt8 :=
  [0x02, 0x79, 0xbe, 0x66, 0x7e, 0xf9, 0xdc, 0xbb, 0xac, 0x55, 0xa0, 0x62, 0x95, 0xce, 0x87, 0x0b,
    0x07, 0x02, 0x9b, 0xfc, 0xdb, 0x2d, 0xce, 0x28, 0xd9, 0x59, 0xf2, 0x81, 0x5b, 0x16, 0xf8, 0x17,
    0x98]

def sampleKey : FusionInputKey where
  prevTxid := String.ofList (List.replicate 64 'a')
  prevIndex := 3
  pubkey := samplePubkey
  value := 200000
  privkey := (Vector.replicate 31 0).push 1

def sampleInput : InputComponent where
  prevTxid := List.replicate 32 0xaa
  prevIndex := 3
  pubkey := samplePubkey
  amount := 200000

/- An answer to a request that was never made. -/
def unknownLine : List UInt8 :=
  Cashaddr.utf8 "\x7b\x22id\x22:9\x7d".toList

def unknownResponse : ListUnspentResponse where
  jsonrpc := .missing
  id := 9
  result := .missing
  error := .missing

def errorLine : List UInt8 :=
  Cashaddr.utf8
    ("\x7b\x22id\x22:1,\x22error\x22:\x7b\x22code\x22:1," ++
      "\x22message\x22:\x22history too large\x22\x7d\x7d").toList

def errorResponse : ListUnspentResponse where
  jsonrpc := .missing
  id := 1
  result := .missing
  error := .present { code := 1, message := "history too large" }

def matchLine : List UInt8 :=
  Cashaddr.utf8
    ("\x7b\x22id\x22:1,\x22result\x22:[\x7b\x22tx_hash\x22:\x22".toList ++ List.replicate 64 'a' ++
        ("\x22,\x22tx_pos\x22:3,\x22height\x22:1," ++ "\x22value\x22:200000\x7d]\x7d").toList)

def matchResponse : ListUnspentResponse where
  jsonrpc := .missing
  id := 1
  result :=
    .present
      [{ txHash := String.ofList (List.replicate 64 'a')
         txPos := 3
         height := 1
         value := 200000 }]
  error := .missing

/- The digests of that key and of its script, and the three lines as they are read. -/
def sampleDeps : Dependencies Unit where
  parsePoint := fun _ => .ok ()
  sha256 := fun bytes =>
    if bytes = samplePubkey then #v[0x0f, 0x71, 0x5b, 0xaf, 0x5d, 0x4c, 0x2e, 0xd3, 0x29,
        0x78, 0x5c, 0xef, 0x29, 0xe5, 0x62, 0xf7, 0x34, 0x88,
        0xc8, 0xa2, 0xbb, 0x9d, 0xbc, 0x57, 0x00, 0xb3, 0x61, 0xd5, 0x4b, 0x9b, 0x05, 0x54]
    else #v[0x3f, 0x4a, 0xe1, 0xeb, 0x3e, 0x75, 0xf3, 0x57, 0x84,
        0x91, 0x81, 0x1d, 0x27, 0xeb, 0x59, 0xe2, 0x3a, 0x51,
        0x2c, 0xf9, 0x0c, 0x73, 0xb1, 0x3c, 0x6a, 0xcd, 0x44, 0x99, 0xf7, 0xc4, 0xd2, 0x8b]
  ripemd160 := fun _ => #v[0x75, 0x1e, 0x76, 0xe8, 0x19, 0x91, 0x96, 0xd4, 0x54,
      0x94, 0x1c, 0x45, 0xd1, 0xb3, 0xa3, 0x23, 0xf1, 0x43, 0x3b, 0xd6]
  parseResponse := fun line =>
    if line = unknownLine ++ [0x0a] then .ok unknownResponse
    else if line = errorLine ++ [0x0a] then .ok errorResponse
    else if line = matchLine ++ [0x0a] then .ok matchResponse
    else .error "expected value at line 1 column 1"

def repeats (host : String) (line : List UInt8) : Configured where
  endpoint := { host, port := 50001, useSsl := false }
  batch := repeating (line ++ [0x0a])
  single := fun _ => repeating (line ++ [0x0a])

theorem sampleLines :
    IsLine sampleDeps unknownLine unknownResponse ∧
    IsLine sampleDeps errorLine errorResponse ∧
    IsLine sampleDeps matchLine matchResponse := by
  refine ⟨⟨?_, ?_, ?_⟩, ⟨?_, ?_, ?_⟩, ⟨?_, ?_, ?_⟩⟩ <;>
    decide +kernel

theorem componentOf_sampleKey : [sampleKey].mapM componentOf = .ok [sampleInput] := by
  decide +kernel

theorem repeating_opens (line : List UInt8) : Opens sampleDeps (repeating line) [sampleInput] := by
  refine ⟨rfl, ?_⟩
  intro index
  have hHash :
      electrumScripthash sampleDeps samplePubkey =
        .ok "8bd2c4f79944cd6a3cb1730cf92c513ae259eb271d81918457f3753eebe14a3f" := by
    decide +kernel
  have hIndex : index = ⟨0, Nat.zero_lt_one⟩ := Fin.ext (Nat.lt_one_iff.mp index.isLt)
  rw [hIndex]
  exact ⟨_, hHash, rfl⟩

/- The one request is answered by the first line. -/
theorem through_repeats {line : List UInt8} {response : ListUnspentResponse}
    (hLine : IsLine sampleDeps line response) (hId : response.id = 1) :
    Through sampleDeps (repeating (line ++ [0x0a])) [sampleInput] [response] := by
  have hTxid : ∃ txid, displayTxid sampleInput = .ok txid := by
    unfold displayTxid
    exact ⟨_, if_neg (not_not.mpr rfl)⟩
  have hAnswered : Answered [response] 0 := by
    unfold Answered
    rw [List.map_singleton, hId]
    exact List.mem_singleton_self 1
  constructor
  · exact repeating_opens _
  · have hRead := responsesFrom_repeating hLine 1 0
    rw [Nat.zero_mul] at hRead
    exact ⟨_, hRead⟩
  · intro index _
    have hIndex : index = ⟨0, Nat.zero_lt_one⟩ := Fin.ext (Nat.lt_one_iff.mp index.isLt)
    rw [hIndex]
    exact hTxid
  · intro index hIndex
    rw [Nat.lt_one_iff.mp hIndex]
    exact hAnswered

/- A lookup of its own has the verdict of the line. -/
theorem verifyInput_repeats {line : List UInt8} {response : ListUnspentResponse}
    (hLine : IsLine sampleDeps line response) (hId : response.id = 1) :
    verifyInput sampleDeps (repeating (line ++ [0x0a])) sampleInput =
      verdict response sampleInput := by
  rcases (repeating_opens (line ++ [0x0a])).2 ⟨0, Nat.zero_lt_one⟩ with ⟨scripthash, hHash, hWrite⟩
  have hSends := repeating_sends (line ++ [0x0a]) 0
  rw [Nat.zero_mul] at hSends
  have hRead : readResponse (repeating (line ++ [0x0a])) = some (.ok (line ++ [0x0a])) := by
    unfold readResponse
    rw [readUntil_of_sends hLine.free (Nat.lt_succ_of_lt hLine.short) hSends, List.nil_append]
  have hParse : parseLine sampleDeps (line ++ [0x0a]) = .ok { response with id := 1 } := by
    rw [hLine.parseLine, ← hId]
  exact verifyInput_of_answer rfl hHash hWrite hRead hParse

/- One server repeats an id that nobody waits for; of two, the first has an error and the second has
   the input. -/
theorem repeats_not_revalidates :
    (∀ lines,
        batchVerifyInputs sampleDeps (repeats "first" unknownLine).batch [sampleInput] lines = none)
      ∧
    ¬ Revalidates sampleDeps [sampleKey] [repeats "first" unknownLine] "FusionBegin" ∧
    ¬ Revalidates sampleDeps [sampleKey] [repeats "first" errorLine, repeats "second" matchLine]
      "FusionBegin" := by
  rcases sampleLines with ⟨hUnknown, hError, hMatch⟩
  have hEndless :
      ∀ lines awaiting,
      openBatch sampleDeps (repeats "first" unknownLine).batch [sampleInput] = some (.ok awaiting) →
        batchLoop sampleDeps (repeats "first" unknownLine).batch [sampleInput] lines
            (startBatch [sampleInput].length awaiting) = none := by
    intro lines awaiting hOpen
    have hRead := responsesFrom_repeating hUnknown lines 0
    rw [Nat.zero_mul] at hRead
    have hNever : ∀ index, Answered (List.replicate lines unknownResponse) index → 8 = index := by
      intro index hAnswered
      rcases List.mem_map.mp hAnswered with ⟨response, hMem, hId⟩
      rw [List.eq_of_mem_replicate hMem] at hId
      exact Nat.succ.inj hId
    refine batchLoop_waits (openBatch_ok hOpen).2 hRead ?_ ?_
    · intro index hAnswered
      have hEight := hNever index.val hAnswered
      have hLt := index.isLt
      rw [← hEight] at hLt
      exact absurd hLt (by decide)
    · intro hAll
      cases hNever 0 (hAll 0 Nat.zero_lt_one)
  rcases openBatch_of_opens (repeating_opens (unknownLine ++ [0x0a])) with ⟨awaiting, hOpen⟩
  refine ⟨?_, ?_, ?_⟩
  · intro lines
    refine (batchVerifyInputs_of_open hOpen lines).trans ?_
    exact congrArg _ (hEndless lines awaiting hOpen)
  · intro hSound
    rcases hSound.bounded _ componentOf_sampleKey _ List.mem_cons_self awaiting hOpen with
      ⟨result, hDone⟩
    cases hDone.symm.trans (hEndless 1 awaiting hOpen)
  · intro hSound
    have hThrough := through_repeats hError rfl
    have hConfirmed :
        Confirmed sampleDeps [repeats "first" errorLine, repeats "second" matchLine]
          [sampleInput] := by
      intro index
      have hIndex : index = ⟨0, Nat.zero_lt_one⟩ := Fin.ext (Nat.lt_one_iff.mp index.isLt)
      rw [hIndex]
      refine ⟨[repeats "first" errorLine], repeats "second" matchLine, [], rfl, ?_, ?_⟩
      · exact (verifyInput_repeats hMatch rfl).trans (by decide +kernel)
      · rw [List.forall_mem_singleton]
        exact ⟨_,
            (verifyInput_repeats hError rfl).trans
              (by decide +kernel :
                verdict errorResponse sampleInput = .error
                    "Electrum RPC error 1: history too large")⟩
    have hFirst :=
      (boundary_agrees_iff componentOf_sampleKey (hSound.bounded _ componentOf_sampleKey)).mp
        hSound.agrees [] _ _ rfl (List.forall_mem_nil _)
    rcases (hFirst.2 _ hThrough).mpr hConfirmed ⟨0, Nat.zero_lt_one⟩ with
      ⟨response, hAnswer, hMatched⟩
    cases hAnswer
    exact absurd hMatched (by decide +kernel)

end ElectrumInput

end OptnWallet.Fusion
