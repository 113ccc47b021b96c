import OptnWallet.Bip37.MerkleBlock
import OptnWallet.Library.Utf8
import OptnWallet.Neutrino.Blocks

/-
  One attempt to get a historical header from a peer: the message is awaited within a deadline and
  within budgets of messages and of bytes, and what ended the attempt says whether the peer is
  left alone for a while.

  Main declarations:
    * `Bip37.decodeShv`
    * `Bip37.readMessageBounded`
    * `Bip37.runShvAttempt` and `Bip37.recordShvOutcome`
    * `Bip37.probe_classified`
-/

namespace OptnWallet.Bip37

open ByteFormat
open Overflow (Mode)

--- Requests And Responses

inductive ProofTarget where
  | peak
  | root
deriving DecidableEq

inductive BlockSelector where
  | height (height : UInt64)
  | hash (hash : Vector UInt8 32)
deriving DecidableEq

structure ShvRequest where
  target : ProofTarget
  selector : BlockSelector
  commitmentHeight : UInt64
deriving DecidableEq

structure ShvResponse where
  target : ProofTarget
  byHash : Bool
  commitmentHeight : UInt64
  blockHeight : UInt64
  header : Vector UInt8 80
  proof : List (Vector UInt8 32)
  claimedTarget : Vector UInt8 32
deriving DecidableEq

def typeProofToRoot : UInt8 := 1
def typeByHash : UInt8 := 2
def typeReservedMask : UInt8 := 0xfc

def maxShvResponses : Nat := 100
def maxProofLen : Nat := 64

def refuse (refused : Bool) (message : String) : Reader String Unit :=
  Reader.lift (if refused then .error message else .ok ())

def readResponse : Reader String ShvResponse := do
  let types ← takeArray 1
  let typeByte := types.get 0
  refuse (typeByte &&& typeReservedMask != 0) "shv response sets reserved type bits"
  let commitmentHeight ← readVarint
  let blockHeight ← readVarint
  refuse (decide (commitmentHeight < blockHeight))
    "shv response proves a block above its commitment"
  let header ← takeArray 80
  let proofLen ← readVarint
  refuse (decide (maxProofLen < proofLen.toNat))
    ("shv proof has " ++ toString proofLen.toNat ++ " siblings")
  let proof ← Reader.many (takeArray 32) proofLen.toNat
  let claimedTarget ← takeArray 32
  let response : ShvResponse :=
    { target :=
        if typeByte &&& typeProofToRoot != 0 then .root
        else .peak
      byHash := typeByte &&& typeByHash != 0
      commitmentHeight
      blockHeight
      header
      proof
      claimedTarget }
  return response

def readResponses : Reader String (List ShvResponse) := do
  let count ← readVarint
  refuse (decide (maxShvResponses < count.toNat))
    ("shv message carries " ++ toString count.toNat ++ " responses")
  Reader.many readResponse count.toNat

def decodeShv (payload : List UInt8) : Except String (List ShvResponse) :=
  Reader.readAll readResponses "shv message has trailing bytes" payload

namespace ShvResponse

/- By hash a response names the height that it resolved, and the caller checks the header. -/
def answers (response : ShvResponse) (request : ShvRequest) : Bool :=
  if response.target ≠ request.target ∨ response.commitmentHeight ≠ request.commitmentHeight then
    false
  else
    match request.selector with
    | .height height => !response.byHash && decide (response.blockHeight = height)
    | .hash _ => response.byHash

end ShvResponse

--- Failures

inductive ShvProbePhase where
  | connect
  | handshake
  | request
  | awaitingResponse
deriving DecidableEq

namespace ShvProbePhase

def informsShvSupport : ShvProbePhase → Bool
  | awaitingResponse => true
  | _ => false

/- How a phase is written in a message. -/
def debug : ShvProbePhase → String
  | connect => "Connect"
  | handshake => "Handshake"
  | request => "Request"
  | awaitingResponse => "AwaitingResponse"

end ShvProbePhase

inductive ShvProbeLimit where
  | deadline
  | messages
  | bytes (announced remaining : Nat)
deriving DecidableEq

inductive ShvProbeFailure where
  | notDemonstrated (limit : ShvProbeLimit)
  | noMatchingResponse
  | malformed (detail : String)
  | transport (phase : ShvProbePhase) (detail : String)
deriving DecidableEq

namespace ShvProbeFailure

def warrantsCooldown : ShvProbeFailure → Bool
  | notDemonstrated _ => true
  | noMatchingResponse => true
  | _ => false

def reason : ShvProbeFailure → String
  | notDemonstrated .deadline => "no shv reply within the deadline"
  | notDemonstrated .messages => "no shv reply within the message budget"
  | notDemonstrated (.bytes announced remaining) =>
    "no shv reply within the byte budget: a " ++ toString announced ++
      "-byte body                  was announced with " ++ toString remaining ++ " left"
  | noMatchingResponse => "shv reply did not answer the request"
  | malformed detail => "unparsable shv frame: " ++ detail
  | transport phase detail => phase.debug ++ " failed before any shv exchange: " ++ detail

end ShvProbeFailure

inductive BoundedReadError where
  | deadline
  | budgetExceeded (announced remaining : Nat)
  | framing (detail : String)
  | transport (detail : String)
deriving DecidableEq

--- Peers

/- What comes of a call on the network, and after how long, if ever. -/
structure Pending (α : Type) where
  delay : Option Nat
  result : Except String α

/- A call that is awaited until a deadline: the clock behind it, and what came of it in time.  What
   is there at once is taken, however late it is. -/
def timeoutAt {α : Type} (deadline clock : Nat) (pending : Pending α) :
    Nat × Option (Except String α) :=
  match pending.delay with
  | some delay =>
    if clock + delay ≤ max clock deadline then (clock + delay, some pending.result)
    else (max clock deadline, none)
  | none => (max clock deadline, none)

/- What a peer does about one message: its header, a body of the length that it announced, and how
   long it takes to accept a pong. -/
structure Turn where
  header : Pending (Vector UInt8 24)
  body : (len : Nat) → Pending (Vector UInt8 len)
  pong : Option Nat

structure Peer where
  connect : Pending Unit
  handshake : Pending Unit
  send : Pending Unit
  turn : Nat → Turn

--- Messages

variable (doubleSha256 : List UInt8 → Vector UInt8 32)

def maxPayload : Nat := 2 * 1024 * 1024

/- The name of a command ends at its first zero. -/
def commandOf (header : Vector UInt8 24) : String :=
  String.ofList (Utf8.lossy (((header.toList.drop 4).take 12).takeWhile (· != 0)))

def announcedLen (header : Vector UInt8 24) : Nat := natOfBytesLE ((header.toList.drop 16).take 4)

/- A read of one message, with the clock behind it and how many bytes of a body it went for. -/
structure BoundedRead where
  clock : Nat
  bytes : Nat
  result : Except BoundedReadError (String × List UInt8)

def readMessageBounded (magic : List UInt8) (deadline clock remaining : Nat) (turn : Turn) :
    BoundedRead :=
  match timeoutAt deadline clock turn.header with
  | (clock, none) => { clock, bytes := 0, result := .error .deadline }
  | (clock, some (.error e)) =>
    { clock
      bytes := 0
      result := .error (.transport ("read failed: " ++ e)) }
  | (clock, some (.ok header)) =>
    let len := announcedLen header
    if header.toList.take 4 ≠ magic then
      { clock
        bytes := 0
        result :=
          .error (.framing
              "bad network magic — wrong network or not a BCH node") }
    else if maxPayload < len then
      { clock
        bytes := 0
        result :=
          .error (.framing
              ("node message too large: " ++ toString len)) }
    else if remaining < len then
      { clock, bytes := 0, result := .error (.budgetExceeded len remaining) }
    else
      match timeoutAt deadline clock (turn.body len) with
      | (clock, none) => { clock, bytes := len, result := .error .deadline }
      | (clock, some (.error e)) =>
        { clock
          bytes := len
          result := .error (.transport ("read failed: " ++ e)) }
      | (clock, some (.ok payload)) =>
        { clock
          bytes := len
          result :=
            if (doubleSha256 payload.toList).toList.take 4 ≠
                header.toList.drop 20 then
              .error (.framing ("bad checksum on '" ++ commandOf header ++ "' message"))
            else .ok (commandOf header, payload.toList) }

--- Attempts

structure ShvProbeBudget where
  deadline : Nat
  maxMessages : Nat
  maxBytes : Nat

/- How an attempt ended, and when, whether the request went out, what each read gave, and the bytes
   that were read. -/
structure ShvAttempt where
  outcome : Except ShvProbeFailure ShvResponse
  clock : Nat
  sent : Bool
  reads : List (Except BoundedReadError (String × List UInt8))
  bytes : Nat

namespace BoundedReadError

def failure : BoundedReadError → ShvProbeFailure
  | deadline => .notDemonstrated .deadline
  | budgetExceeded announced remaining => .notDemonstrated (.bytes announced remaining)
  | framing detail => .malformed detail
  | transport detail => .transport .awaitingResponse detail

end BoundedReadError

def answerOf (request : ShvRequest) (body : List UInt8) : Except ShvProbeFailure ShvResponse :=
  match decodeShv body with
  | .error detail => .error (.malformed detail)
  | .ok responses =>
    match responses.find? (·.answers request) with
    | some answer => .ok answer
    | none => .error .noMatchingResponse

/- A pong is written without a deadline. -/
def pongClock (command : String) (clock : Nat) (turn : Turn) : Option Nat :=
  if command = "ping" then turn.pong.map (clock + ·)
  else some clock

def BoundedRead.ends (read : BoundedRead) (outcome : Except ShvProbeFailure ShvResponse) :
    ShvAttempt :=
  { outcome, clock := read.clock, sent := true, reads := [read.result], bytes := read.bytes }

def ShvAttempt.behind (attempt : ShvAttempt) (read : BoundedRead) : ShvAttempt :=
  { attempt with reads := read.result :: attempt.reads, bytes := read.bytes + attempt.bytes }

section

variable (magic : List UInt8) (request : ShvRequest) (deadline : Nat) (peer : Peer)

/- The messages that are left, from a turn of the peer on. -/
def awaitShv : Nat → Nat → Nat → Nat → Option ShvAttempt
  | 0, _, clock, _ => some
      { outcome := .error (.notDemonstrated .messages)
        clock
        sent := true
        reads := []
        bytes := 0 }
  | messages + 1, remaining, clock, turn =>
    let read := readMessageBounded doubleSha256 magic deadline clock remaining (peer.turn turn)
    match read.result with
    | .error e => some (read.ends (.error e.failure))
    | .ok (command, body) =>
      if command = "shv" then some (read.ends (answerOf request body))
      else
        match pongClock command read.clock (peer.turn turn)
          with
        | none => none
        | some clock =>
          (awaitShv messages (remaining - body.length) clock (turn + 1)).map (·.behind read)

end

/- An attempt that ended before the request was out. -/
def unsent (clock : Nat) (phase : ShvProbePhase) (detail : String) : ShvAttempt :=
  { outcome := .error (.transport phase detail), clock, sent := false, reads := [], bytes := 0 }

def runShvAttempt (magic : List UInt8) (request : ShvRequest) (budget : ShvProbeBudget)
    (start : Nat) (peer : Peer) : Option ShvAttempt :=
  let deadline := start + budget.deadline
  match timeoutAt deadline start peer.connect with
  | (clock, none) => some (unsent clock .connect "deadline expired")
  | (clock, some (.error e)) => some (unsent clock .connect e)
  | (clock, some (.ok _)) =>
    match timeoutAt deadline clock peer.handshake with
    | (clock, none) => some (unsent clock .handshake "deadline expired")
    | (clock, some (.error e)) => some (unsent clock .handshake e)
    | (clock, some (.ok _)) =>
      match timeoutAt deadline clock peer.send with
      | (clock, none) => some (unsent clock .request "deadline expired")
      | (clock, some (.error e)) => some (unsent clock .request ("getshv send failed: " ++ e))
      | (clock, some (.ok _)) =>
        awaitShv doubleSha256 magic request deadline peer budget.maxMessages budget.maxBytes clock 0

--- Records

structure ShvCapabilityStatus where
  reason : String
  retryAfter : Nat
deriving DecidableEq

/- Three hundred seconds, in nanoseconds. -/
def shvProbeCooldown : Nat := 300000000000

/- The assertion is there in a build that checks. -/
def recordShvOutcome (mode : Mode) (now : Nat) (status : Option ShvCapabilityStatus)
    (outcome : ShvProbeFailure) : Option ShvCapabilityStatus × Fault ChainBackendError :=
  let status :=
    if outcome.warrantsCooldown then
      some { reason := outcome.reason, retryAfter := now + shvProbeCooldown }
    else status
  match outcome with
  | .notDemonstrated _ => (status, .error .timeout)
  | .noMatchingResponse => (status, .error .timeout)
  | .malformed detail => (status, .error (.invalidResponse detail))
  | .transport phase detail =>
    if mode = .panics ∧ phase.informsShvSupport then (status, .panic)
    else (status, .error (.protocol detail))

/- What an attempt leaves behind and returns. -/
def ShvAttempt.record (mode : Mode) (status : Option ShvCapabilityStatus) (attempt : ShvAttempt) :
    Option ShvCapabilityStatus × Except (Fault ChainBackendError) ShvResponse :=
  match attempt.outcome with
  | .ok answer => (status, .ok answer)
  | .error failure =>
    let recorded := recordShvOutcome mode attempt.clock status failure
    (recorded.1, .error recorded.2)

--- What An Attempt Read

section

variable {magic : List UInt8} {request : ShvRequest} {deadline : Nat} {peer : Peer}

/- A message that answers the request. -/
def Usable (request : ShvRequest) (read : Except BoundedReadError (String × List UInt8)) : Prop :=
  ∃ body responses response,
    read = .ok ("shv", body) ∧ decodeShv body = .ok responses ∧
      response ∈ responses ∧
      response.answers request = true

section

variable (read : Except BoundedReadError (String × List UInt8))

/- A frame, or an answer in it, that cannot be parsed. -/
def Unparsable : Prop :=
  ∃ detail,
    read = .error (.framing detail) ∨
      ∃ body, read = .ok ("shv", body) ∧ decodeShv body = .error detail

/- The connection broke while a message was awaited. -/
def Broken : Prop :=
  ∃ detail, read = .error (.transport detail)

end

/- What the outcome says about the reads. -/
structure Told (request : ShvRequest) (outcome : Except ShvProbeFailure ShvResponse)
    (reads : List (Except BoundedReadError (String × List UInt8))) : Prop where
  answered : (∃ answer, outcome = .ok answer) ↔ ∃ read ∈ reads, Usable request read
  malformed : (∃ detail, outcome = .error (.malformed detail)) ↔ ∃ read ∈ reads, Unparsable read
  broken :
    (∃ phase detail, outcome = .error (.transport phase detail)) ↔ ∃ read ∈ reads, Broken read
  awaiting : ∀ phase detail, outcome = .error (.transport phase detail) → phase = .awaitingResponse
  matching : ∀ answer, outcome = .ok answer → answer.answers request = true

theorem readMessageBounded_bytes (clock remaining : Nat) (turn : Turn) :
    (readMessageBounded doubleSha256 magic deadline clock remaining turn).bytes ≤ remaining := by
  unfold readMessageBounded
  split
  · exact Nat.zero_le _
  · exact Nat.zero_le _
  · dsimp only
    split_ifs with hMagic hLarge hOver
    · exact Nat.zero_le _
    · exact Nat.zero_le _
    · exact Nat.zero_le _
    · split
      · exact not_lt.mp hOver
      · exact not_lt.mp hOver
      · exact not_lt.mp hOver

/- A message that was read is as long as what was read for it. -/
theorem readMessageBounded_ok {clock remaining : Nat} {turn : Turn} {command : String}
    {body : List UInt8}
    (hRead :
        (readMessageBounded doubleSha256 magic deadline clock remaining turn).result =
          .ok (command, body)) :
    (readMessageBounded doubleSha256 magic deadline clock remaining turn).bytes = body.length := by
  unfold readMessageBounded at hRead ⊢
  split at hRead
  · cases hRead
  · cases hRead
  · rename_i clock' header hHeader
    dsimp only at hRead ⊢
    split_ifs at hRead ⊢ with hMagic hLarge hOver
    split at hRead
    · cases hRead
    · cases hRead
    · rename_i clock'' payload hBody
      dsimp only at hRead ⊢
      split at hRead
      · cases hRead
      · cases hRead
        exact Vector.length_toList.symm

/- Neither an answer nor a failure. -/
structure Quiet (request : ShvRequest) (read : Except BoundedReadError (String × List UInt8)) :
    Prop where
  unusable : ¬ Usable request read
  parsable : ¬ Unparsable read
  unbroken : ¬ Broken read

/- What is told of the reads behind is told of all of them. -/
theorem Told.cons {outcome : Except ShvProbeFailure ShvResponse}
    {reads : List (Except BoundedReadError (String × List UInt8))}
    (hTold : Told request outcome reads) {read : Except BoundedReadError (String × List UInt8)}
    (hQuiet : Quiet request read) : Told request outcome (read :: reads) where
  answered := by
    rw [hTold.answered, List.exists_mem_cons_iff]
    exact (or_iff_right hQuiet.unusable).symm
  malformed := by
    rw [hTold.malformed, List.exists_mem_cons_iff]
    exact (or_iff_right hQuiet.parsable).symm
  broken := by
    rw [hTold.broken, List.exists_mem_cons_iff]
    exact (or_iff_right hQuiet.unbroken).symm
  awaiting := hTold.awaiting
  matching := hTold.matching

theorem exists_mem_singleton {α : Type} {P : α → Prop} {a : α} : (∃ b ∈ [a], P b) ↔ P a := by
  simp only [List.mem_singleton, exists_eq_left]

theorem quiet_of_other (request : ShvRequest) {command : String} {body : List UInt8}
    (hOther : command ≠ "shv") : Quiet request (.ok (command, body)) where
  unusable := by
    rintro ⟨body', responses, response, hRead, -⟩
    cases hRead
    exact hOther rfl
  parsable := by
    rintro ⟨detail, hRead | ⟨body', hRead, -⟩⟩
    · cases hRead
    · cases hRead
      exact hOther rfl
  unbroken := by
    rintro ⟨detail, hRead⟩
    cases hRead

/- A read without a message. -/
theorem told_of_error (request : ShvRequest) (e : BoundedReadError) :
    Told request (.error e.failure) [.error e] where
  answered := by
    rw [exists_mem_singleton]
    constructor
    · rintro ⟨answer, hOutcome⟩
      cases hOutcome
    · rintro ⟨body, responses, response, hRead, -⟩
      cases hRead
  malformed := by
    rw [exists_mem_singleton]
    constructor
    · rintro ⟨detail, hOutcome⟩
      cases e with
      | framing detail => exact ⟨detail, Or.inl rfl⟩
      | _ => cases hOutcome
    · rintro ⟨detail, hRead | ⟨body, hRead, -⟩⟩
      · cases hRead
        exact ⟨detail, rfl⟩
      · cases hRead
  broken := by
    rw [exists_mem_singleton]
    constructor
    · rintro ⟨phase, detail, hOutcome⟩
      cases e with
      | transport detail => exact ⟨detail, rfl⟩
      | _ => cases hOutcome
    · rintro ⟨detail, hRead⟩
      cases hRead
      exact ⟨.awaitingResponse, detail, rfl⟩
  awaiting := by
    intro phase detail hOutcome
    cases e with
    | transport detail =>
      cases hOutcome
      rfl
    | _ => cases hOutcome
  matching := by
    intro answer hOutcome
    cases hOutcome

/- A message that is an answer, or should be one. -/
theorem told_of_shv (request : ShvRequest) (body : List UInt8) :
    Told request (answerOf request body) [.ok ("shv", body)] := by
  have hUnbroken :
      ∀ outcome : Except ShvProbeFailure ShvResponse,
      (∀ phase detail, outcome ≠ .error (.transport phase detail)) →
        ((∃ phase detail, outcome = .error (.transport phase detail)) ↔
            ∃ read ∈ [Except.ok ("shv", body)], Broken read) := by
    intro outcome hNone
    rw [exists_mem_singleton]
    constructor
    · rintro ⟨phase, detail, hOutcome⟩
      exact absurd hOutcome (hNone phase detail)
    · rintro ⟨detail, hRead⟩
      cases hRead
  unfold answerOf
  cases hDecode : decodeShv body with
  | error detail =>
    constructor
    · rw [exists_mem_singleton]
      constructor
      · rintro ⟨answer, hOutcome⟩
        cases hOutcome
      · rintro ⟨body', responses, response, hRead, hOk, -⟩
        cases hRead
        rw [hDecode] at hOk
        cases hOk
    · rw [exists_mem_singleton]
      constructor
      · rintro ⟨detail', hOutcome⟩
        exact ⟨detail, Or.inr ⟨body, rfl, hDecode⟩⟩
      · rintro -
        exact ⟨detail, rfl⟩
    · apply hUnbroken
      intro phase detail' hOutcome
      cases hOutcome
    · intro phase detail' hOutcome
      cases hOutcome
    · intro answer hOutcome
      cases hOutcome
  | ok responses =>
    have hParsable : ¬ ∃ read ∈ [Except.ok ("shv", body)], Unparsable read := by
      rw [exists_mem_singleton]
      rintro ⟨detail, hRead | ⟨body', hRead, hError⟩⟩
      · cases hRead
      · cases hRead
        rw [hDecode] at hError
        cases hError
    dsimp only
    cases hFind : responses.find? (·.answers request) with
    | none =>
      rw [List.find?_eq_none] at hFind
      constructor
      · rw [exists_mem_singleton]
        constructor
        · rintro ⟨answer, hOutcome⟩
          cases hOutcome
        · rintro ⟨body', responses', response, hRead, hOk, hMem, hAnswers⟩
          cases hRead
          rw [hDecode] at hOk
          cases hOk
          exact absurd hAnswers (hFind response hMem)
      · constructor
        · rintro ⟨detail, hOutcome⟩
          cases hOutcome
        · intro hSome
          exact absurd hSome hParsable
      · apply hUnbroken
        intro phase detail hOutcome
        cases hOutcome
      · intro phase detail hOutcome
        cases hOutcome
      · intro answer hOutcome
        cases hOutcome
    | some answer =>
      have hAnswers := List.find?_some hFind
      have hMem := List.mem_of_find?_eq_some hFind
      constructor
      · rw [exists_mem_singleton]
        constructor
        · rintro -
          exact ⟨body, responses, answer, rfl, hDecode, hMem, hAnswers⟩
        · rintro -
          exact ⟨answer, rfl⟩
      · constructor
        · rintro ⟨detail, hOutcome⟩
          cases hOutcome
        · intro hSome
          exact absurd hSome hParsable
      · apply hUnbroken
        intro phase detail hOutcome
        cases hOutcome
      · intro phase detail hOutcome
        cases hOutcome
      · intro answer' hOutcome
        cases hOutcome
        exact hAnswers

variable {attempt : ShvAttempt}

/- By induction over the messages that are left. -/
theorem awaitShv_spec (messages remaining clock turn : Nat)
    (hAwait :
        awaitShv doubleSha256 magic request deadline peer messages remaining clock turn =
          some attempt) :
    attempt.sent = true ∧
    attempt.reads.length ≤ messages ∧
    attempt.bytes ≤ remaining ∧
    Told request attempt.outcome attempt.reads := by
  induction messages generalizing remaining clock turn attempt with
  | zero =>
    cases hAwait
    refine ⟨rfl, le_refl 0, Nat.zero_le _, ?_⟩
    constructor
    · constructor
      · rintro ⟨answer, hOutcome⟩
        cases hOutcome
      · rintro ⟨read, hMem, -⟩
        cases hMem
    · constructor
      · rintro ⟨detail, hOutcome⟩
        cases hOutcome
      · rintro ⟨read, hMem, -⟩
        cases hMem
    · constructor
      · rintro ⟨phase, detail, hOutcome⟩
        cases hOutcome
      · rintro ⟨read, hMem, -⟩
        cases hMem
    · intro phase detail hOutcome
      cases hOutcome
    · intro answer hOutcome
      cases hOutcome
  | succ messages ih =>
    have hBytes :=
      @readMessageBounded_bytes doubleSha256 magic deadline clock remaining (peer.turn turn)
    rw [awaitShv] at hAwait
    cases hRead :
      (readMessageBounded doubleSha256 magic deadline clock remaining (peer.turn turn)).result with
    | error e =>
      rw [hRead] at hAwait
      cases hAwait
      refine ⟨rfl, Nat.succ_le_succ (Nat.zero_le _), hBytes, ?_⟩
      unfold BoundedRead.ends
      rw [hRead]
      exact told_of_error request e
    | ok message =>
      rcases message with ⟨command, body⟩
      rw [hRead] at hAwait
      dsimp only at hAwait
      split at hAwait
      · rename_i hShv
        subst hShv
        cases hAwait
        refine ⟨rfl, Nat.succ_le_succ (Nat.zero_le _), hBytes, ?_⟩
        unfold BoundedRead.ends
        rw [hRead]
        exact told_of_shv request body
      · rename_i hOther
        split at hAwait
        · cases hAwait
        · rename_i clock' hPong
          rcases Option.map_eq_some_iff.mp hAwait with ⟨later, hLater, rfl⟩
          rcases ih _ _ _ hLater with ⟨hSent, hCount, hCost, hTold⟩
          have hSize := readMessageBounded_ok doubleSha256 hRead
          refine ⟨hSent, Nat.succ_le_succ hCount, ?_, ?_⟩
          · change _ + later.bytes ≤ remaining
            omega
          · unfold ShvAttempt.behind
            rw [hRead]
            exact hTold.cons (quiet_of_other request hOther)

/- What holds of an attempt before the request is out. -/
theorem unsent_told (clock : Nat) {phase : ShvProbePhase} (hPhase : phase ≠ .awaitingResponse)
    (detail : String) (mode : Mode) (status : Option ShvCapabilityStatus) :
    (unsent clock phase detail).record mode status =
      (status, .error (.error (.protocol detail))) := by
  have hQuiet : phase.informsShvSupport = false := by
    cases phase with
    | awaitingResponse => exact absurd rfl hPhase
    | _ => rfl
  unfold unsent ShvAttempt.record recordShvOutcome
  dsimp only
  rw [hQuiet]
  simp [ShvProbeFailure.warrantsCooldown]

/- An attempt ends before the request is out, or its messages are awaited. -/
theorem runShvAttempt_cases {budget : ShvProbeBudget} {start : Nat}
    (hRun : runShvAttempt doubleSha256 magic request budget start peer = some attempt) :
    (∃ clock phase detail, phase ≠ .awaitingResponse ∧ attempt = unsent clock phase detail) ∨
    ∃ clock,
      awaitShv doubleSha256 magic request (start + budget.deadline) peer budget.maxMessages
          budget.maxBytes clock 0 = some attempt := by
  have hUnsent :
      ∀ clock phase detail,
      phase ≠ .awaitingResponse → some (unsent clock phase detail) = some attempt →
        ∃ clock phase detail, phase ≠ .awaitingResponse ∧ attempt = unsent clock phase detail :=
    fun clock phase detail hPhase hSame =>
      ⟨clock, phase, detail, hPhase, (Option.some.inj hSame).symm⟩
  unfold runShvAttempt at hRun
  dsimp only at hRun
  split at hRun
  · exact Or.inl (hUnsent _ _ _ (by decide) hRun)
  · exact Or.inl (hUnsent _ _ _ (by decide) hRun)
  · split at hRun
    · exact Or.inl (hUnsent _ _ _ (by decide) hRun)
    · exact Or.inl (hUnsent _ _ _ (by decide) hRun)
    · split at hRun
      · exact Or.inl (hUnsent _ _ _ (by decide) hRun)
      · exact Or.inl (hUnsent _ _ _ (by decide) hRun)
      · exact Or.inr ⟨_, hRun⟩

theorem answers_iff {response : ShvResponse} :
    response.answers request = true ↔ response.target = request.target ∧
        response.commitmentHeight = request.commitmentHeight ∧
          match request.selector with
          | .height height => response.byHash = false ∧ response.blockHeight = height
          | .hash _ => response.byHash = true := by
  unfold ShvResponse.answers
  split_ifs with hOther
  · constructor
    · intro hFalse
      cases hFalse
    · rintro ⟨hTarget, hHeight, -⟩
      rcases hOther with hOther | hOther
      · exact absurd hTarget hOther
      · exact absurd hHeight hOther
  · rw [not_or, not_not, not_not] at hOther
    cases request.selector with
    | height height => simp [hOther]
    | hash hash => simp [hOther]

/- The peer is left alone: the request was out, and no message answered it or could not be parsed.
   -/
structure ShvAttempt.Declined (request : ShvRequest) (attempt : ShvAttempt) : Prop where
  sent : attempt.sent = true
  unanswered : ∀ read ∈ attempt.reads, ¬ Usable request read
  parsable : ∀ read ∈ attempt.reads, ¬ Unparsable read

/- What an attempt comes to, apart from a connection that broke while messages were awaited. -/
structure ShvAttempt.Classified (mode : Mode) (status : Option ShvCapabilityStatus)
    (request : ShvRequest) (attempt : ShvAttempt) : Prop where
  asserted : (attempt.record mode status).2 ≠ .error .panic
  cooldown :
    attempt.Declined request → ∃ reason,
        (attempt.record mode status).1 =
          some { reason, retryAfter := attempt.clock + shvProbeCooldown }
  none : ¬ attempt.Declined request → (attempt.record mode status).1 = status

theorem awaited_classified {messages remaining clock turn : Nat}
    (hAwait :
      awaitShv doubleSha256 magic request deadline peer messages remaining clock turn =
        some attempt) (hUnbroken : ∀ read ∈ attempt.reads, ¬ Broken read) (mode : Mode)
    (status : Option ShvCapabilityStatus) : attempt.Classified mode status request := by
  rcases awaitShv_spec doubleSha256 _ _ _ _ hAwait with ⟨hSent, -, -, hTold⟩
  have hDeclined :
      attempt.Declined request ↔
      (¬ ∃ answer, attempt.outcome = .ok answer) ∧
        ¬ ∃ detail, attempt.outcome = .error (.malformed detail) := by
    rw [hTold.answered, hTold.malformed]
    constructor
    · intro hDeclined
      constructor
      · rintro ⟨read, hMem, hUsable⟩
        exact hDeclined.unanswered read hMem hUsable
      · rintro ⟨read, hMem, hUnparsable⟩
        exact hDeclined.parsable read hMem hUnparsable
    · rintro ⟨hUnanswered, hParsable⟩
      exact ⟨hSent, fun read hMem hUsable => hUnanswered ⟨read, hMem, hUsable⟩,
        fun read hMem hUnparsable => hParsable ⟨read, hMem, hUnparsable⟩⟩
  have hNoTransport : ¬ ∃ phase detail, attempt.outcome = .error (.transport phase detail) := by
    rw [hTold.broken]
    rintro ⟨read, hMem, hBroken⟩
    exact hUnbroken read hMem hBroken
  cases hOutcome : attempt.outcome with
  | ok answer =>
    have hRecord : attempt.record mode status = (status, .ok answer) := by
      unfold ShvAttempt.record
      rw [hOutcome]
    constructor
    · rw [hRecord]
      intro hPanic
      cases hPanic
    · intro hCool
      exact absurd ⟨answer, hOutcome⟩ (hDeclined.mp hCool).1
    · intro hWarm
      rw [hRecord]
  | error failure =>
    have hRecord :
        attempt.record mode status = ((recordShvOutcome mode attempt.clock status failure).1,
            .error (recordShvOutcome mode attempt.clock status failure).2) := by
      unfold ShvAttempt.record
      rw [hOutcome]
    have hUnanswered : ¬ ∃ answer, attempt.outcome = .ok answer := by
      rintro ⟨answer, hOk⟩
      rw [hOutcome] at hOk
      cases hOk
    cases failure with
    | malformed detail =>
      constructor
      · rw [hRecord]
        intro hPanic
        cases hPanic
      · intro hCool
        exact absurd ⟨detail, hOutcome⟩ (hDeclined.mp hCool).2
      · intro hWarm
        rw [hRecord]
        rfl
    | transport phase detail => exact absurd ⟨phase, detail, hOutcome⟩ hNoTransport
    | notDemonstrated limit =>
      have hCool :=
        hDeclined.mpr
          ⟨hUnanswered, by
            rintro ⟨detail, hMalformed⟩
            rw [hOutcome] at hMalformed
            cases hMalformed⟩
      constructor
      · rw [hRecord]
        intro hPanic
        cases hPanic
      · intro _
        rw [hRecord]
        exact ⟨_, rfl⟩
      · intro hWarm
        exact absurd hCool hWarm
    | noMatchingResponse =>
      have hCool :=
        hDeclined.mpr
          ⟨hUnanswered, by
            rintro ⟨detail, hMalformed⟩
            rw [hOutcome] at hMalformed
            cases hMalformed⟩
      constructor
      · rw [hRecord]
        intro hPanic
        cases hPanic
      · intro _
        rw [hRecord]
        exact ⟨_, rfl⟩
      · intro hWarm
        exact absurd hCool hWarm

/-
  Whatever a peer does, an attempt that ends has read no more than its budgets, returns answers to
  the request alone, and leaves the peer alone for a while just where the request was out and the
  budgets ran out or another request was answered.
-/
theorem probe_classified {budget : ShvProbeBudget} {start : Nat} {attempt : ShvAttempt}
    (hRun : runShvAttempt doubleSha256 magic request budget start peer = some attempt) (mode : Mode)
    (status : Option ShvCapabilityStatus) :
    attempt.reads.length ≤ budget.maxMessages ∧ attempt.bytes ≤ budget.maxBytes ∧
        (∀ answer,
          (attempt.record mode status).2 = .ok answer → answer.target = request.target ∧
              answer.commitmentHeight = request.commitmentHeight ∧
                match request.selector with
                | .height height => answer.byHash = false ∧ answer.blockHeight = height
                | .hash _ => answer.byHash = true) ∧
          ((∀ read ∈ attempt.reads, ¬ Broken read) → attempt.Classified mode status request) := by
  rcases runShvAttempt_cases doubleSha256 hRun with ⟨clock, phase, detail, hPhase, rfl⟩ |
    ⟨clock, hAwait⟩
  · have hRecord := unsent_told clock hPhase detail mode status
    refine ⟨Nat.zero_le _, Nat.zero_le _, ?_, ?_⟩
    · intro answer hAnswer
      rw [hRecord] at hAnswer
      cases hAnswer
    · rintro -
      constructor
      · rw [hRecord]
        intro hPanic
        cases hPanic
      · intro hCool
        cases hCool.sent
      · intro _
        rw [hRecord]
  · rcases awaitShv_spec doubleSha256 _ _ _ _ hAwait with ⟨-, hCount, hCost, hTold⟩
    refine ⟨hCount, hCost, ?_, ?_⟩
    · intro answer hAnswer
      apply answers_iff.mp
      apply hTold.matching
      unfold ShvAttempt.record at hAnswer
      cases hOutcome : attempt.outcome with
      | ok found =>
        rw [hOutcome] at hAnswer
        cases hAnswer
        rfl
      | error failure =>
        rw [hOutcome] at hAnswer
        cases hAnswer
    · intro hUnbroken
      exact awaited_classified doubleSha256 hAwait hUnbroken mode status

end

def atOnce {α : Type} (value : α) : Pending α := { delay := some 0, result := .ok value }

/- A peer of another network, whose first message is all zeros. -/
def foreignPeer : Peer :=
  { connect := atOnce ()
    handshake := atOnce ()
    send := atOnce ()
    turn := fun _ =>
      { header := atOnce (Vector.replicate 24 0)
        body := fun len => atOnce (Vector.replicate len 0)
        pong := some 0 } }

def tipRequest : ShvRequest := { target := .root, selector := .height 1, commitmentHeight := 2 }

def directBudget : ShvProbeBudget :=
  { deadline := 30000000000, maxMessages := 32, maxBytes := 2097152 }

theorem foreign_classified :
    ∃ attempt,
    runShvAttempt (fun _ => Vector.replicate 32 0) [0xe3, 0xe1, 0xf3, 0xe8] tipRequest directBudget
          0 foreignPeer = some attempt ∧
      attempt.reads.length ≤ 32 :=
  ⟨_, rfl,
    (@probe_classified (fun _ => Vector.replicate 32 0) [0xe3, 0xe1, 0xf3, 0xe8] tipRequest
      foreignPeer directBudget 0 _ rfl .panics none).1⟩

/- The request was out and no message answered it, but the peer is not left alone. -/
theorem foreign_no_cooldown :
    ∃ attempt,
    runShvAttempt (fun _ => Vector.replicate 32 0) [0xe3, 0xe1, 0xf3, 0xe8] tipRequest directBudget
          0 foreignPeer = some attempt ∧
      attempt.sent = true ∧
      (∀ read ∈ attempt.reads, ¬ Usable tipRequest read) ∧
      (attempt.record .panics none).1 = none := by
  refine ⟨_, rfl, rfl, ?_, rfl⟩
  intro read hMem hUsable
  rcases hUsable with ⟨body, responses, response, rfl, -⟩
  cases List.mem_singleton.mp hMem

end OptnWallet.Bip37
