import OptnWallet.Core.Cashaddr
import OptnWallet.Core.Psbt.RoundTrip

/-
  The parser of an envelope, index by index: the positions it adds up, the slices and bytes it
  takes out of the file, and the fixed sizes it copies into.  Each of them could stop the program,
  and none of them does: what is parsed is what `Psbt.parse` says, for every file that fits the
  memory.

  Main declarations:
    * `Indexed.addUsize`, `Indexed.sliceOf`, `Indexed.byteAt`
    * `Indexed.parseTransaction`
    * `Indexed.parse`
    * `Indexed.parse_eq`
-/

--- Positions

namespace OptnWallet

open StagedUpdate ByteFormat

namespace Indexed

variable {ε : Type}

/- A sum of positions, which has to fit a word. -/
def addUsize (a b : Nat) : Except (Fault ε) Nat :=
  if a + b < 2 ^ 64 then .ok (a + b) else .error .panic

/- A difference of lengths, which has to be one. -/
def subUsize (a b : Nat) : Except (Fault ε) Nat :=
  if b ≤ a then .ok (a - b) else .error .panic

def checkedAdd (a b : Nat) : Option Nat :=
  if a + b < 2 ^ 64 then some (a + b) else none

/- `bytes[start..stop]` -/
def sliceOf (bytes : List UInt8) (start stop : Nat) : Except (Fault ε) (List UInt8) :=
  if start ≤ stop ∧ stop ≤ bytes.length then .ok ((bytes.drop start).take (stop - start))
  else .error .panic

/- `bytes[index]` -/
def byteAt (bytes : List UInt8) (index : Nat) : Except (Fault ε) UInt8 :=
  match bytes[index]? with
  | some byte => .ok byte
  | none => .error .panic

/- `copy_from_slice` into an array of `count` bytes. -/
def copyInto (count : Nat) (bytes : List UInt8) : Except (Fault ε) (Vector UInt8 count) :=
  if hLength : bytes.length = count then .ok ⟨bytes.toArray, hLength⟩
  else .error .panic

variable {a b start stop count : Nat} {bytes : List UInt8}

theorem addUsize_of_lt (hLt : a + b < 2 ^ 64) :
    (addUsize a b : Except (Fault ε) Nat) = .ok (a + b) := if_pos hLt

theorem subUsize_of_le (hLe : b ≤ a) : (subUsize a b : Except (Fault ε) Nat) = .ok (a - b) :=
  if_pos hLe

theorem sliceOf_of_le (hStart : start ≤ stop) (hStop : stop ≤ bytes.length) :
    (sliceOf bytes start stop : Except (Fault ε) _) =
      .ok ((bytes.drop start).take (stop - start)) := if_pos ⟨hStart, hStop⟩

theorem sliceOf_add (hStop : start + count ≤ bytes.length) :
    (sliceOf bytes start (start + count) : Except (Fault ε) _) =
      .ok ((bytes.drop start).take count) := by
  rw [sliceOf_of_le (Nat.le_add_right _ _) hStop, Nat.add_sub_cancel_left]

theorem byteAt_of_lt (hLt : start < bytes.length) :
    (byteAt bytes start : Except (Fault ε) _) = .ok bytes[start] := by
  unfold byteAt
  rw [List.getElem?_eq_getElem hLt]

theorem copyInto_of_length (hLength : bytes.length = count) :
    (copyInto count bytes : Except (Fault ε) _) = .ok ⟨bytes.toArray, hLength⟩ := dif_pos hLength

/- Four bytes, taken one by one. -/
def fourBytes (bytes : List UInt8) (start : Nat) : Except (Fault ε) (List UInt8) := do
  let b₀ ← byteAt bytes start
  let next ← addUsize start 1
  let b₁ ← byteAt bytes next
  let next ← addUsize start 2
  let b₂ ← byteAt bytes next
  let next ← addUsize start 3
  let b₃ ← byteAt bytes next
  .ok [b₀, b₁, b₂, b₃]

theorem fourBytes_of_le (hFits : Psbt.FitsWord bytes) (hStop : start + 4 ≤ bytes.length) :
    (fourBytes bytes start : Except (Fault ε) _) = .ok ((bytes.drop start).take 4) := by
  unfold Psbt.FitsWord at hFits
  have hBytes :
      (bytes.drop start).take 4 =
        [bytes[start], bytes[start + 1], bytes[start + 2], bytes[start + 3]] := by
    rw [List.drop_eq_getElem_cons (by omega), List.drop_eq_getElem_cons (by omega),
      List.drop_eq_getElem_cons (by omega), List.drop_eq_getElem_cons (by omega)]
    rfl
  unfold fourBytes
  rw [hBytes, addUsize_of_lt (by omega), addUsize_of_lt (by omega), addUsize_of_lt (by omega),
    byteAt_of_lt (by omega)]
  dsimp only [bind, Except.bind]
  rw [byteAt_of_lt (by omega)]
  dsimp only
  rw [byteAt_of_lt (by omega)]
  dsimp only
  rw [byteAt_of_lt (by omega)]

--- Transactions

/- Whether there are `count` bytes from a position on. -/
def need (raw : List UInt8) (i count : Nat) : Except (Fault CliError) Unit :=
  match checkedAdd i count with
  | some stop =>
    if stop ≤ raw.length then .ok ()
    else .error (.error truncated)
  | none => .error (.error truncated)

/- The value of an integer that was copied into eight bytes, where it needs its width. -/
def wideValue (error : CliError) (first : UInt8) (buf : List UInt8) (stop : Nat) :
    Except (Fault CliError) (UInt64 × Nat) :=
  let value := UInt64.ofNat (natOfBytesLE (buf ++ List.replicate (8 - payloadWidth first) 0))
  if value < compactMinimum first then .error (.error error)
  else .ok (value, stop)

def varint : Reader (Fault CliError) UInt64 := fun raw i => do
  need raw i 1
  let first ← byteAt raw i
  let i ← addUsize i 1
  if first ≤ 0xfc then .ok (first.toUInt64, i)
  else
    need raw i (payloadWidth first)
    let stop ← addUsize i (payloadWidth first)
    let bytes ← sliceOf raw i stop
    let buf ← copyInto (payloadWidth first) bytes
    let i ← addUsize i (payloadWidth first)
    wideValue (.protocol "transaction uses non-canonical CompactSize") first buf.toList i

def parseInput :
    Reader (Fault CliError) Rpa.ParsedInput := fun raw i => do
  need raw i 36
  let stop ← addUsize i 32
  let txid ← sliceOf raw i stop
  let vout ← fourBytes raw stop
  let i ← addUsize i 36
  let len ← varint raw i
  need raw len.2 len.1.toNat
  let scriptEnd ← addUsize len.2 len.1.toNat
  let scriptSig ← sliceOf raw len.2 scriptEnd
  need raw scriptEnd 4
  let i ← addUsize scriptEnd 4
  .ok ((hexString txid.reverse, UInt32.ofNat (natOfBytesLE vout), scriptSig), i)

def parseOutput :
    Reader (Fault CliError) Rpa.ParsedOutput := fun raw i => do
  need raw i 8
  let stop ← addUsize i 8
  let bytes ← sliceOf raw i stop
  let value ← copyInto 8 bytes
  let i ← addUsize i 8
  let len ← varint raw i
  need raw len.2 len.1.toNat
  let scriptEnd ← addUsize len.2 len.1.toNat
  let script ← sliceOf raw len.2 scriptEnd
  .ok ((UInt64.ofNat (natOfBytesLE value.toList), script), scriptEnd)

/- The bounds check where the reader stands. -/
def needHere (count : Nat) : Reader (Fault CliError) Unit :=
  fun raw i => do
    need raw i count
    .ok ((), i)

def advance (count : Nat) : Reader (Fault CliError) Unit :=
  fun _ i => do
    let i ← addUsize i count
    .ok ((), i)

def parseFields : Reader (Fault CliError) Rpa.ParsedTransaction := do
  needHere 4
  advance 4
  let inputCount ← varint
  let inputs ← Reader.many parseInput inputCount.toNat
  let outputCount ← varint
  let outputs ← Reader.many parseOutput outputCount.toNat
  needHere 4
  advance 4
  pure (inputs, outputs)

def parseTransaction (raw : List UInt8) : Except (Fault CliError) Rpa.ParsedTransaction :=
  parseFields.readAll (.error (.protocol "transaction has trailing bytes")) raw

--- Agreement

/- At a position the indexed reader answers what the other one does, and never stops the program. -/
def AgreesAt {α : Type} (safe : Reader CliError α) (run : Reader (Fault CliError) α)
    (raw : List UInt8) (position : Nat) : Prop :=
  run raw position = (safe raw position).mapError Fault.error

section

variable {raw : List UInt8} {i : Nat} {α : Type}

theorem AgreesAt.of_ok {safe : Reader CliError α} {run : Reader (Fault CliError) α}
    (hAgrees : AgreesAt safe run raw i) {found : α × Nat} (hRead : safe raw i = .ok found) :
    run raw i = .ok found := by
  unfold AgreesAt at hAgrees
  rw [hAgrees, hRead]
  rfl

theorem AgreesAt.of_error {safe : Reader CliError α} {run : Reader (Fault CliError) α}
    (hAgrees : AgreesAt safe run raw i) {error : CliError} (hRead : safe raw i = .error error) :
    run raw i = .error (.error error) := by
  unfold AgreesAt at hAgrees
  rw [hAgrees, hRead]
  rfl

theorem need_of_le (hFits : Psbt.FitsWord raw) (hRoom : i + count ≤ raw.length) :
    need raw i count = .ok () := by
  unfold Psbt.FitsWord at hFits
  unfold need checkedAdd
  rw [if_pos (by omega)]
  exact if_pos hRoom

theorem need_of_not_le (hShort : ¬ i + count ≤ raw.length) :
    need raw i count = .error (.error truncated) := by
  unfold need checkedAdd
  split
  · rename_i stop hStop
    split at hStop
    · cases hStop
      exact if_neg hShort
    · cases hStop
  · rfl

theorem natOfBytesLE_append_zeros (bytes : List UInt8) (count : Nat) :
    natOfBytesLE (bytes ++ List.replicate count 0) = natOfBytesLE bytes := by
  have hZeros : natOfBytesLE (List.replicate count 0) = 0 := by
    induction count with
    | zero => rfl
    | succ count ih =>
      rw [List.replicate_succ, natOfBytesLE_cons, ih]
      rfl
  induction bytes with
  | nil => exact hZeros
  | cons byte bytes ih => rw [List.cons_append, natOfBytesLE_cons, natOfBytesLE_cons, ih]

/- What reading an integer answers, case by case. -/
theorem compactSize_eq (error truncated : CliError) (raw : List UInt8) (i : Nat) :
    compactSize truncated (minimal error) raw i =
      match raw[i]? with
      | none => .error truncated
      | some first =>
        if first ≤ 0xfc then .ok (first.toUInt64, i + 1)
        else if i + 1 + payloadWidth first ≤ raw.length then
          if UInt64.ofNat (natOfBytesLE ((raw.drop (i + 1)).take (payloadWidth first))) <
              compactMinimum first
          then .error error
          else .ok (UInt64.ofNat (natOfBytesLE ((raw.drop (i + 1)).take (payloadWidth first))),
                i + 1 + payloadWidth first)
        else .error truncated := by
  unfold compactSize
  cases hFirst : raw[i]? with
  | none =>
    apply Reader.bind_of_error
    unfold Reader.takeByte
    rw [hFirst]
  | some first =>
    have hTake : Reader.takeByte truncated raw i = .ok (first, i + 1) := by
      unfold Reader.takeByte
      rw [hFirst]
    have hLt : i < raw.length := (List.getElem?_eq_some_iff.mp hFirst).1
    rw [Reader.bind_of_ok hTake]
    dsimp only
    by_cases hNarrow : first ≤ 0xfc
    · have hWidth : payloadWidth first = 0 := if_pos hNarrow
      have hValue : ∀ payload, compactValue first payload = first.toUInt64 :=
        fun payload => if_pos hNarrow
      have hPayload : Reader.take truncated (payloadWidth first) raw (i + 1) = .ok ([], i + 1) := by
        unfold Reader.take
        rw [hWidth, Nat.add_zero, if_pos (Nat.succ_le_of_lt hLt)]
        rfl
      have hMinimal : minimal error first first.toUInt64 = .ok () := by
        rw [minimal_eq_ok_iff, compactMinimum_narrow hNarrow]
        exact Nat.zero_le _
      rw [if_pos hNarrow, Reader.bind_of_ok hPayload, hValue, hMinimal]
      rfl
    · have hValue : ∀ payload, compactValue first payload = UInt64.ofNat (natOfBytesLE payload) :=
        fun payload => if_neg hNarrow
      rw [if_neg hNarrow]
      by_cases hRoom : i + 1 + payloadWidth first ≤ raw.length
      · have hPayload :
            Reader.take truncated (payloadWidth first) raw (i + 1) =
              .ok ((raw.drop (i + 1)).take (payloadWidth first), i + 1 + payloadWidth first) :=
          if_pos hRoom
        rw [if_pos hRoom, Reader.bind_of_ok hPayload, hValue]
        by_cases hSmall :
          UInt64.ofNat (natOfBytesLE ((raw.drop (i + 1)).take (payloadWidth first))) <
            compactMinimum first
        · rw [if_pos hSmall]
          apply Reader.bind_of_error
          unfold Reader.lift minimal
          rw [if_pos hSmall]
        · rw [if_neg hSmall]
          have hCheck :
              Reader.lift
                  (minimal error first
                    (UInt64.ofNat (natOfBytesLE ((raw.drop (i + 1)).take (payloadWidth first)))))
                  raw (i + 1 + payloadWidth first) = .ok ((), i + 1 + payloadWidth first) := by
            unfold Reader.lift minimal
            rw [if_neg hSmall]
          exact (Reader.bind_of_ok hCheck).trans rfl
      · rw [if_neg hRoom]
        apply Reader.bind_of_error
        exact if_neg hRoom

/- The wide integer that was copied is the one that was taken. -/
theorem wideValue_eq (error : CliError) (first : UInt8) (buf : List UInt8) (stop : Nat) :
    wideValue error first buf stop =
      if UInt64.ofNat (natOfBytesLE buf) < compactMinimum first
      then .error (.error error)
      else .ok (UInt64.ofNat (natOfBytesLE buf), stop) := by
  unfold wideValue
  rw [natOfBytesLE_append_zeros]

theorem varint_agrees (hFits : Psbt.FitsWord raw) (i : Nat) : AgreesAt Rpa.varint varint raw i := by
  unfold AgreesAt Rpa.varint
  rw [compactSize_eq]
  unfold varint
  cases hFirst : raw[i]? with
  | none =>
    have hShort : ¬ i + 1 ≤ raw.length := by
      rw [List.getElem?_eq_none_iff] at hFirst
      omega
    rw [need_of_not_le hShort]
    rfl
  | some first =>
    rcases List.getElem?_eq_some_iff.mp hFirst with ⟨hLt, hByte⟩
    have hSize := hFits
    unfold Psbt.FitsWord at hSize
    rw [need_of_le hFits hLt, bind_of_ok rfl,
      bind_of_ok ((byteAt_of_lt hLt).trans (congrArg _ hByte)),
      bind_of_ok (addUsize_of_lt (by omega))]
    dsimp only
    by_cases hNarrow : first ≤ 0xfc
    · rw [if_pos hNarrow, if_pos hNarrow]
      rfl
    rw [if_neg hNarrow, if_neg hNarrow]
    by_cases hRoom : i + 1 + payloadWidth first ≤ raw.length
    · have hLength :
          ((raw.drop (i + 1)).take (payloadWidth first)).length = payloadWidth first := by
        rw [List.length_take, List.length_drop]
        omega
      have hSum := @addUsize_of_lt CliError (i + 1) (payloadWidth first) (by omega)
      rw [if_pos hRoom, need_of_le hFits hRoom, bind_of_ok rfl, bind_of_ok hSum,
        bind_of_ok (sliceOf_add hRoom), bind_of_ok (copyInto_of_length hLength), bind_of_ok hSum,
        wideValue_eq]
      dsimp only [Vector.toList]
      split
      · rfl
      · rfl
    · rw [if_neg hRoom, need_of_not_le hRoom]
      rfl

/- What the other reader answers of a bounds check. -/
theorem readerNeed_of_le {offset : Nat} (hRoom : i + offset + count ≤ raw.length) :
    Reader.need truncated offset count raw i = .ok ((), i) := if_pos hRoom

theorem readerNeed_of_not_le {offset : Nat} (hShort : ¬ i + offset + count ≤ raw.length) :
    Reader.need truncated offset count raw i = .error truncated := if_neg hShort

theorem parseInput_agrees (hFits : Psbt.FitsWord raw) (i : Nat) :
    AgreesAt Rpa.parseInput parseInput raw i := by
  have hSize := hFits
  unfold Psbt.FitsWord at hSize
  unfold AgreesAt Rpa.parseInput parseInput
  by_cases hRoom : i + 36 ≤ raw.length
  · rw [need_of_le hFits hRoom, bind_of_ok rfl, bind_of_ok (addUsize_of_lt (by omega)),
      bind_of_ok (sliceOf_add (by omega)), bind_of_ok (fourBytes_of_le hFits (by omega)),
      bind_of_ok (addUsize_of_lt (by omega)), Reader.bind_of_ok (readerNeed_of_le hRoom),
      Reader.bind_of_ok rfl, Reader.bind_of_ok rfl, Reader.bind_of_ok rfl]
    have hLen := varint_agrees hFits (i + 36)
    cases hRead : Rpa.varint raw (i + 36) with
    | error error =>
      rw [hLen.of_error hRead, Reader.bind_of_error hRead]
      rfl
    | ok found =>
      rcases found with ⟨len, next⟩
      rw [Reader.bind_of_ok hRead, bind_of_ok (hLen.of_ok hRead)]
      dsimp only
      by_cases hScript : next + len.toNat ≤ raw.length
      · rw [need_of_le hFits hScript, bind_of_ok rfl, bind_of_ok (addUsize_of_lt (by omega)),
          bind_of_ok (sliceOf_add hScript), Reader.bind_of_ok (readerNeed_of_le hScript),
          Reader.bind_of_ok rfl]
        by_cases hSequence : next + len.toNat + 4 ≤ raw.length
        · rw [need_of_le hFits hSequence, bind_of_ok rfl, bind_of_ok (addUsize_of_lt (by omega)),
            Reader.bind_of_ok (readerNeed_of_le hSequence)]
          rfl
        · rw [need_of_not_le hSequence, Reader.bind_of_error (readerNeed_of_not_le hSequence)]
          rfl
      · rw [need_of_not_le hScript, Reader.bind_of_error (readerNeed_of_not_le hScript)]
        rfl
  · rw [need_of_not_le hRoom, Reader.bind_of_error (readerNeed_of_not_le hRoom)]
    rfl

theorem parseOutput_agrees (hFits : Psbt.FitsWord raw) (i : Nat) :
    AgreesAt Rpa.parseOutput parseOutput raw i := by
  have hSize := hFits
  unfold Psbt.FitsWord at hSize
  unfold AgreesAt Rpa.parseOutput parseOutput
  by_cases hRoom : i + 8 ≤ raw.length
  · have hLength : ((raw.drop i).take 8).length = 8 := by
      rw [List.length_take, List.length_drop]
      omega
    rw [need_of_le hFits hRoom, bind_of_ok rfl, bind_of_ok (addUsize_of_lt (by omega)),
      bind_of_ok (sliceOf_add hRoom), bind_of_ok (copyInto_of_length hLength),
      bind_of_ok (addUsize_of_lt (by omega)), Reader.bind_of_ok (readerNeed_of_le hRoom),
      Reader.bind_of_ok rfl, Reader.bind_of_ok rfl]
    have hLen := varint_agrees hFits (i + 8)
    cases hRead : Rpa.varint raw (i + 8) with
    | error error =>
      rw [hLen.of_error hRead, Reader.bind_of_error hRead]
      rfl
    | ok found =>
      rcases found with ⟨len, next⟩
      rw [Reader.bind_of_ok hRead, bind_of_ok (hLen.of_ok hRead)]
      dsimp only
      by_cases hScript : next + len.toNat ≤ raw.length
      · rw [need_of_le hFits hScript, bind_of_ok rfl, bind_of_ok (addUsize_of_lt (by omega)),
          bind_of_ok (sliceOf_add hScript), Reader.bind_of_ok (readerNeed_of_le hScript),
          Reader.bind_of_ok rfl]
        rfl
      · rw [need_of_not_le hScript, Reader.bind_of_error (readerNeed_of_not_le hScript)]
        rfl
  · rw [need_of_not_le hRoom, Reader.bind_of_error (readerNeed_of_not_le hRoom)]
    rfl

/- One reader after another. -/
theorem AgreesAt.bind {β : Type} {safe : Reader CliError α} {run : Reader (Fault CliError) α}
    {next : α → Reader CliError β} {next' : α → Reader (Fault CliError) β}
    (hFirst : AgreesAt safe run raw i)
    (hNext : ∀ value stop,
        safe raw i = .ok (value, stop) → AgreesAt (next value) (next' value) raw stop) :
    AgreesAt (safe >>= next) (run >>= next') raw i := by
  unfold AgreesAt at hFirst ⊢
  cases hRead : safe raw i with
  | error error =>
    rw [hRead] at hFirst
    rw [Reader.bind_of_error hRead]
    exact Reader.bind_of_error hFirst
  | ok found =>
    rcases found with ⟨value, stop⟩
    rw [hRead] at hFirst
    rw [Reader.bind_of_ok hRead, ← hNext value stop hRead]
    exact Reader.bind_of_ok hFirst

theorem AgreesAt.pure (value : α) (i : Nat) : AgreesAt (pure value) (pure value) raw i := rfl

/- By induction over how many values are read. -/
theorem AgreesAt.many {safe : Reader CliError α} {run : Reader (Fault CliError) α}
    (hReads : ∀ i, AgreesAt safe run raw i) (count i : Nat) :
    AgreesAt (Reader.many safe count) (Reader.many run count) raw i := by
  induction count generalizing i with
  | zero => rfl
  | succ count ih =>
    exact (hReads i).bind fun value stop _ => (ih stop).bind fun values last _ => AgreesAt.pure
      (value :: values) last

section

variable (hFits : Psbt.FitsWord raw)
include hFits

theorem needHere_agrees (count i : Nat) :
    AgreesAt (Reader.need truncated 0 count) (needHere count) raw i := by
  unfold AgreesAt needHere
  by_cases hRoom : i + count ≤ raw.length
  · rw [need_of_le hFits hRoom, readerNeed_of_le hRoom]
    rfl
  · rw [need_of_not_le hRoom, readerNeed_of_not_le hRoom]
    rfl

/- Behind a bounds check the reader can advance. -/
theorem advance_agrees {here : Unit}
    (hNeed : Reader.need truncated 0 count raw i = .ok (here, stop)) :
    AgreesAt (Reader.advance count) (advance count) raw stop := by
  unfold Psbt.FitsWord at hFits
  unfold Reader.need at hNeed
  split at hNeed
  · rename_i hRoom
    cases hNeed
    unfold AgreesAt advance
    rw [addUsize_of_lt (by omega)]
    rfl
  · cases hNeed

theorem parseFields_agrees (i : Nat) : AgreesAt Rpa.parseFields parseFields raw i := by
  unfold Rpa.parseFields parseFields
  apply (needHere_agrees hFits 4 i).bind
  intro _ _ hVersion
  apply (advance_agrees hFits hVersion).bind
  intro _ stop _
  apply (varint_agrees hFits stop).bind
  intro inputCount stop _
  apply (AgreesAt.many (parseInput_agrees hFits) inputCount.toNat stop).bind
  intro inputs stop _
  apply (varint_agrees hFits stop).bind
  intro outputCount stop _
  apply (AgreesAt.many (parseOutput_agrees hFits) outputCount.toNat stop).bind
  intro outputs stop _
  apply (needHere_agrees hFits 4 stop).bind
  intro _ _ hLocktime
  apply (advance_agrees hFits hLocktime).bind
  intro _ stop _
  exact AgreesAt.pure (inputs, outputs) stop

theorem parseTransaction_eq :
    parseTransaction raw = (Rpa.parseTransaction raw).mapError Fault.error := by
  have hFields := parseFields_agrees hFits 0
  unfold parseTransaction Rpa.parseTransaction Reader.readAll
  cases hRead : Rpa.parseFields raw 0 with
  | error error =>
    rw [hFields.of_error hRead]
    rfl
  | ok found =>
    rw [hFields.of_ok hRead]
    dsimp only
    split
    · rfl
    · rfl

end

end

--- Records

open Psbt (FitsWord)

def take (len : Nat) : Reader (Fault CliError) (List UInt8) :=
  fun raw i =>
    match (checkedAdd i len).filter (fun stop => stop ≤ raw.length)
    with
    | none => .error (.error Psbt.Cursor.midRecord)
    | some stop => do
        let bytes ← sliceOf raw i stop
        .ok (bytes, stop)

def compactSize : Reader (Fault CliError) UInt64 :=
  fun raw i => do
    let one ← take 1 raw i
    match one.1.head? with
    | none => .error (.error (.protocol "PSBT ends where a length was expected"))
    | some first =>
      if first ≤ 0xfc then .ok (first.toUInt64, one.2)
      else
        let read ← take (payloadWidth first) raw one.2
        let buf ← copyInto (payloadWidth first) read.1
        wideValue (.protocol "PSBT has a non-minimal CompactSize") first buf.toList read.2

def recordBytes : Reader (Fault CliError) (List UInt8) := do
  let len ← compactSize
  take len.toNat

/- Only keys of more bytes are asked for their first one. -/
def hasKeyData (singletonTypes key : List UInt8) : Except (Fault CliError) Bool :=
  if key.length ≠ 1 then do
    let kind ← byteAt key 0
    .ok (singletonTypes.contains kind)
  else .ok false

def checkKey (singletonTypes : List UInt8) (keys : List (List UInt8)) (key : List UInt8) :
    Except (Fault CliError) Unit := do
  let _ ← compactSize key 0
  let data ← hasKeyData singletonTypes key
  if data then .error (.error (.protocol "PSBT singleton key contains key data"))
  else if keys.contains key then .error (.error (.protocol "PSBT map contains a duplicate key"))
  else .ok ()

def readMap (singletonTypes : List UInt8) : Reader (Fault CliError) (List RecordMap.Field) :=
  RecordMap.readMap recordBytes (checkKey singletonTypes) (.error Psbt.Cursor.midRecord)

section

variable {raw : List UInt8}

section

variable (hFits : FitsWord raw)
include hFits

theorem take_agrees (len i : Nat) :
    AgreesAt (Reader.take Psbt.Cursor.midRecord len) (take len) raw i := by
  unfold FitsWord at hFits
  unfold AgreesAt take Reader.take checkedAdd
  by_cases hRoom : i + len ≤ raw.length
  · rw [if_pos (by omega), if_pos hRoom]
    have hKept :
        (some (i + len)).filter (fun stop => decide (stop ≤ raw.length)) = some (i + len) :=
      Option.filter_eq_some_iff.mpr ⟨rfl, decide_eq_true hRoom⟩
    rw [hKept]
    dsimp only
    rw [sliceOf_add hRoom]
    rfl
  · rw [if_neg hRoom]
    split
    · rfl
    · rename_i stop hStop
      rw [Option.filter_eq_some_iff] at hStop
      rcases hStop with ⟨hSum, hStop⟩
      split at hSum
      · cases hSum
        exact absurd (of_decide_eq_true hStop) hRoom
      · cases hSum

theorem compactSize_agrees (i : Nat) : AgreesAt Psbt.Cursor.compactSize compactSize raw i := by
  unfold AgreesAt Psbt.Cursor.compactSize
  rw [compactSize_eq]
  unfold compactSize
  have hOne := take_agrees hFits 1 i
  cases hFirst : raw[i]? with
  | none =>
    have hShort : ¬ i + 1 ≤ raw.length := by
      rw [List.getElem?_eq_none_iff] at hFirst
      omega
    rw [hOne.of_error (if_neg hShort)]
    rfl
  | some first =>
    rcases List.getElem?_eq_some_iff.mp hFirst with ⟨hLt, hByte⟩
    have hHead : ((raw.drop i).take 1).head? = some first := by
      rw [List.drop_eq_getElem_cons hLt, hByte]
      rfl
    rw [bind_of_ok (hOne.of_ok (if_pos (Nat.succ_le_of_lt hLt)))]
    dsimp only
    rw [hHead]
    dsimp only
    by_cases hNarrow : first ≤ 0xfc
    · rw [if_pos hNarrow, if_pos hNarrow]
      rfl
    rw [if_neg hNarrow, if_neg hNarrow]
    have hRead := take_agrees hFits (payloadWidth first) (i + 1)
    by_cases hRoom : i + 1 + payloadWidth first ≤ raw.length
    · have hLength :
          ((raw.drop (i + 1)).take (payloadWidth first)).length = payloadWidth first := by
        rw [List.length_take, List.length_drop]
        omega
      rw [if_pos hRoom, bind_of_ok (hRead.of_ok (if_pos hRoom)),
        bind_of_ok (copyInto_of_length hLength), wideValue_eq]
      dsimp only [Vector.toList]
      split
      · rfl
      · rfl
    · rw [if_neg hRoom, hRead.of_error (if_neg hRoom)]
      rfl

theorem recordBytes_agrees (i : Nat) : AgreesAt Psbt.Cursor.recordBytes recordBytes raw i := by
  apply (compactSize_agrees hFits i).bind
  intro len stop _
  exact take_agrees hFits len.toNat stop

/- What is read of a file is no longer than the file. -/
theorem fits_of_recordBytes {i stop : Nat} {value : List UInt8}
    (hRead : Psbt.Cursor.recordBytes raw i = .ok (value, stop)) : FitsWord value := by
  rcases Reader.bind_eq_ok_iff.mp hRead with ⟨len, middle, -, hTake⟩
  unfold Reader.take at hTake
  split at hTake
  · cases hTake
    unfold FitsWord at hFits ⊢
    rw [List.length_take, List.length_drop]
    omega
  · cases hTake

end

theorem checkKey_eq {key : List UInt8} (hKey : FitsWord key) (hSome : key ≠ [])
    (singletonTypes : List UInt8) (keys : List (List UInt8)) :
    checkKey singletonTypes keys key =
      (Psbt.Cursor.checkKey singletonTypes keys key).mapError Fault.error := by
  have hType := compactSize_agrees hKey 0
  unfold checkKey Psbt.Cursor.checkKey
  cases hRead : Psbt.Cursor.compactSize key 0 with
  | error error =>
    rw [hType.of_error hRead]
    rfl
  | ok found =>
    rw [bind_of_ok (hType.of_ok hRead)]
    have hData :
        hasKeyData singletonTypes key =
          .ok (decide (key.length ≠ 1 ∧ singletonTypes.contains (key.headD 0))) := by
      unfold hasKeyData
      by_cases hLength : key.length ≠ 1
      · cases key with
        | nil => exact absurd rfl hSome
        | cons kind rest =>
          rw [if_pos hLength]
          simp only
            [ne_eq, hLength, not_false_eq_true, true_and, List.headD_cons, Bool.decide_eq_true]
          rfl
      · rw [if_neg hLength]
        simp [hLength]
    rw [bind_of_ok hData]
    simp only [decide_eq_true_eq]
    split
    · rfl
    · split
      · rfl
      · rfl

/- By induction over the fuel. -/
theorem readFields_agrees (hFits : FitsWord raw) (singletonTypes : List UInt8) (fuel i : Nat)
    (fields : List RecordMap.Field) :
    AgreesAt
      (RecordMap.readFields Psbt.Cursor.recordBytes (Psbt.Cursor.checkKey singletonTypes)
        Psbt.Cursor.midRecord fuel fields)
      (RecordMap.readFields recordBytes (checkKey singletonTypes) (.error Psbt.Cursor.midRecord)
        fuel fields) raw i := by
  induction fuel generalizing i fields with
  | zero => rfl
  | succ fuel ih =>
    apply (recordBytes_agrees hFits i).bind
    intro key stop hKey
    by_cases hNil : key = []
    · rw [if_pos hNil, if_pos hNil]
      exact AgreesAt.pure fields stop
    · rw [if_neg hNil, if_neg hNil]
      have hCheck :
          AgreesAt (Reader.lift (Psbt.Cursor.checkKey singletonTypes (fields.map Prod.fst) key))
            (Reader.lift (checkKey singletonTypes (fields.map Prod.fst) key)) raw stop := by
        unfold AgreesAt Reader.lift
        rw [checkKey_eq (fits_of_recordBytes hFits hKey) hNil]
        cases Psbt.Cursor.checkKey singletonTypes (fields.map Prod.fst) key with
        | error error => rfl
        | ok _ => rfl
      apply hCheck.bind
      intro _ next _
      apply (recordBytes_agrees hFits next).bind
      intro value last _
      exact ih last (fields ++ [(key, value)])

theorem readMap_agrees (hFits : FitsWord raw) (singletonTypes : List UInt8) (i : Nat) :
    AgreesAt (Psbt.Cursor.readMap singletonTypes) (readMap singletonTypes) raw i :=
  readFields_agrees hFits singletonTypes (raw.length + 1 - i) i []

/- By induction over the fuel. -/
theorem fits_of_readFields (hFits : FitsWord raw) {singletonTypes : List UInt8} {fuel i stop : Nat}
    {fields found : List RecordMap.Field} (hFields : ∀ field ∈ fields, FitsWord field.2)
    (hRead :
        RecordMap.readFields Psbt.Cursor.recordBytes (Psbt.Cursor.checkKey singletonTypes)
            Psbt.Cursor.midRecord fuel fields raw i = .ok (found, stop)) :
    ∀ field ∈ found, FitsWord field.2 := by
  induction fuel generalizing i fields with
  | zero => cases hRead
  | succ fuel ih =>
    rcases Reader.bind_eq_ok_iff.mp hRead with ⟨key, middle, -, hRest⟩
    split at hRest
    · rcases Reader.pure_eq_ok_iff.mp hRest with ⟨rfl, -⟩
      exact hFields
    · rcases Reader.bind_eq_ok_iff.mp hRest with ⟨-, next, -, hRest⟩
      rcases Reader.bind_eq_ok_iff.mp hRest with ⟨value, last, hValue, hRest⟩
      apply ih ?_ hRest
      rw [List.forall_mem_append]
      refine ⟨hFields, ?_⟩
      rw [List.forall_mem_singleton]
      exact fits_of_recordBytes hFits hValue

end

--- Input Maps

/- Whether a record is a fingerprint and whole path steps. -/
def badRecord (value : List UInt8) : Except (Fault CliError) Bool :=
  if value.length < 4 then .ok true
  else do
    let rest ← subUsize value.length 4
    .ok (rest % 4 ≠ 0)

def keyOrigin (index : Nat) (key value : List UInt8) : Except (Fault CliError) KeyOrigin :=
  if hPubkey : (key.drop 1).length = 33 then do
    let bad ← badRecord value
    if bad then
      .error
        (.error (.protocol
            ("input " ++ toString index ++ ": a derivation record is a 4-byte fingerprint" ++
              " then whole path steps, got " ++ toString value.length ++ " bytes")))
    else
      let first ← sliceOf value 0 4
      let fingerprint ← copyInto 4 first
      let rest ← sliceOf value 4 value.length
      .ok { pubkey := ⟨(key.drop 1).toArray, hPubkey⟩, fingerprint, path := Psbt.pathSteps rest }
  else .error (.error (.protocol
          ("input " ++ toString index ++ ": a derivation key needs a 33-byte compressed" ++
            " pubkey")))

variable (index : Nat)

def noteField (input : PsbtInput) (field : RecordMap.Field) :
    Except (Fault CliError) PsbtInput := do
  let input ← (Psbt.noteUtxo index input field.1).mapError Fault.error
  if field.1.head? = some Psbt.inSighashType then
    if field.2.length ≠ 4 then
      .error
        (.error (.protocol
            ("input " ++ toString index ++ ": sighash type is " ++ toString field.2.length ++
              " bytes, not 4")))
    else .ok { input with sighashType := some (UInt32.ofNat (natOfBytesLE field.2)) }
  else if field.1.head? = some Psbt.inBip32Derivation then do
    let origin ← keyOrigin index field.1 field.2
    .ok { input with origins := input.origins ++ [origin] }
  else .ok input

def inputFromFields (fields : List RecordMap.Field) : Except (Fault CliError) PsbtInput :=
  fields.foldlM (noteField index) {}

theorem keyOrigin_eq (key value : List UInt8) :
    keyOrigin index key value = (Psbt.keyOrigin index key value).mapError Fault.error := by
  unfold keyOrigin Psbt.keyOrigin
  by_cases hPubkey : (key.drop 1).length = 33
  · rw [dif_pos hPubkey, dif_pos hPubkey]
    by_cases hShort : value.length < 4
    · have hBad : badRecord value = .ok true := if_pos hShort
      rw [bind_of_ok hBad, if_pos rfl, dif_pos (Or.inl hShort)]
      rfl
    · have hBad : badRecord value = .ok (decide ((value.length - 4) % 4 ≠ 0)) := by
        unfold badRecord
        rw [if_neg hShort, bind_of_ok (subUsize_of_le (by omega))]
      rw [bind_of_ok hBad]
      by_cases hSteps : (value.length - 4) % 4 ≠ 0
      · rw [if_pos (decide_eq_true hSteps), dif_pos (Or.inr hSteps)]
        rfl
      · have hLength : (value.take 4).length = 4 := by
          rw [List.length_take]
          omega
        have hFirst : (sliceOf value 0 4 : Except (Fault CliError) _) = .ok (value.take 4) :=
          sliceOf_of_le (Nat.zero_le 4) (by omega)
        rw [if_neg (by rw [decide_eq_true_eq]; exact hSteps), dif_neg (not_or.mpr ⟨hShort, hSteps⟩),
          bind_of_ok hFirst, bind_of_ok (copyInto_of_length hLength),
          bind_of_ok (sliceOf_of_le (by omega) (le_refl _))]
        have hRest : (value.drop 4).take (value.length - 4) = value.drop 4 := by
          apply List.take_of_length_le
          rw [List.length_drop]
        rw [hRest]
        rfl
  · rw [dif_neg hPubkey, dif_neg hPubkey]
    rfl

theorem noteField_eq (input : PsbtInput) (field : RecordMap.Field) :
    noteField index input field = (Psbt.noteField index input field).mapError Fault.error := by
  unfold noteField Psbt.noteField
  cases Psbt.noteUtxo index input field.1 with
  | error error => rfl
  | ok noted =>
    dsimp only [Except.mapError, bind, Except.bind]
    split
    · split
      · rfl
      · rfl
    · split
      · rw [keyOrigin_eq]
        cases Psbt.keyOrigin index field.1 field.2 with
        | error error => rfl
        | ok origin => rfl
      · rfl

/- By induction over the records. -/
theorem foldlM_noteField (fields : List RecordMap.Field) (input : PsbtInput) :
    fields.foldlM (noteField index) input =
      (fields.foldlM (Psbt.noteField index) input).mapError Fault.error := by
  induction fields generalizing input with
  | nil => rfl
  | cons field fields ih =>
    rw [List.foldlM_cons, List.foldlM_cons, noteField_eq]
    cases Psbt.noteField index input field with
    | error error => rfl
    | ok next => exact ih next

--- Envelopes

def checkCount (global : List RecordMap.Field) (kind : UInt8) (expected : Nat) :
    Except (Fault CliError) Unit :=
  match Psbt.lookup kind global with
  | none => .ok ()
  | some value => do
      let count ← compactSize value 0
      if count.1 ≠ UInt64.ofNat expected ∨ count.2 ≠ value.length then
        .error (.error (.protocol ("PSBT count disagrees with its unsigned" ++ " transaction")))
      else .ok ()

def unsignedTransactionOf (global : List RecordMap.Field) :
    Except (Fault CliError) (List UInt8 × Rpa.ParsedTransaction) :=
  match Psbt.lookup Psbt.globalUnsignedTx global with
  | none => .error (.error (.protocol "PSBT has no unsigned transaction"))
  | some unsignedTx => do
      let tx ← parseTransaction unsignedTx
      if tx.1.any (fun input => ¬ input.2.2.isEmpty) then
        .error (.error (.protocol "PSBT unsigned transaction contains a scriptSig"))
      else do
        checkCount global Psbt.globalInputCount tx.1.length
        checkCount global Psbt.globalOutputCount tx.2.length
        return (unsignedTx, tx)

/- An error of a map names the map. -/
def within (kind : String) (index : Nat) : Fault CliError → Fault CliError
  | .error error => .error (Psbt.within kind index error)
  | .panic => .panic

def readInputs (index : Nat) : Nat → Reader (Fault CliError) (List PsbtInput)
  | 0 => pure []
  | count + 1 => do
      let fields ← (readMap Psbt.inputSingletons).mapError (within "input" index)
      let input ← Reader.lift (inputFromFields index fields)
      let inputs ← readInputs (index + 1) count
      return input :: inputs

def readOutputs (index : Nat) : Nat → Reader (Fault CliError) Unit
  | 0 => pure ()
  | count + 1 => do
      let _ ← (readMap Psbt.outputSingletons).mapError (within "output" index)
      readOutputs (index + 1) count

def readMaps : Reader (Fault CliError) Psbt := do
  let global ← readMap Psbt.globalSingletons
  let (unsignedTx, txInputs, txOutputs) ← Reader.lift (unsignedTransactionOf global)
  let inputs ← readInputs 0 txInputs.length
  readOutputs 0 txOutputs.length
  pure { unsignedTx, inputs, outputCount := txOutputs.length }

/- Whether a file starts with the magic bytes, which are only cut out of one that is long enough. -/
def hasMagic (raw : List UInt8) : Except (Fault CliError) Bool :=
  if raw.length < Psbt.psbtMagic.length then .ok false
  else do
    let start ← sliceOf raw 0 Psbt.psbtMagic.length
    .ok (start = Psbt.psbtMagic)

def parse (raw : List UInt8) : Except (Fault CliError) Psbt := do
  let magic ← hasMagic raw
  if magic then
    let read ← readMaps raw Psbt.psbtMagic.length
    if read.2 ≠ raw.length then .error (.error (.protocol "PSBT contains trailing maps or bytes"))
    else .ok read.1
  else .error (.error (.protocol "not a PSBT: the magic bytes are missing"))

section

variable {raw : List UInt8}

theorem lift_agrees {α : Type} {safe : Except CliError α} {run : Except (Fault CliError) α}
    (hSame : run = safe.mapError Fault.error) (i : Nat) :
    AgreesAt (Reader.lift safe) (Reader.lift run) raw i := by
  unfold AgreesAt Reader.lift
  rw [hSame]
  cases safe with
  | error error => rfl
  | ok value => rfl

theorem within_agrees {α : Type} {safe : Reader CliError α} {run : Reader (Fault CliError) α}
    {i : Nat} (hAgrees : AgreesAt safe run raw i) (kind : String) (index : Nat) :
    AgreesAt (safe.mapError (Psbt.within kind index)) (run.mapError (within kind index)) raw i := by
  unfold AgreesAt at hAgrees ⊢
  unfold Reader.mapError
  rw [hAgrees]
  cases safe raw i with
  | error error => rfl
  | ok value => rfl

variable {global : List RecordMap.Field}

section

variable (hGlobal : ∀ field ∈ global, FitsWord field.2)
include hGlobal

theorem fits_of_lookup {kind : UInt8} {value : List UInt8}
    (hLookup : Psbt.lookup kind global = some value) : FitsWord value := by
  rcases Option.map_eq_some_iff.mp hLookup with ⟨field, hField, rfl⟩
  exact hGlobal field (List.mem_of_find?_eq_some hField)

theorem checkCount_eq (kind : UInt8) (expected : Nat) :
    checkCount global kind expected =
      (Psbt.checkCount global kind expected).mapError Fault.error := by
  unfold checkCount Psbt.checkCount
  cases hLookup : Psbt.lookup kind global with
  | none => rfl
  | some value =>
    dsimp only
    have hCount := compactSize_agrees (fits_of_lookup hGlobal hLookup) 0
    cases hRead : Psbt.Cursor.compactSize value 0 with
    | error error =>
      rw [hCount.of_error hRead]
      rfl
    | ok found =>
      rw [bind_of_ok (hCount.of_ok hRead)]
      rcases found with ⟨count, stop⟩
      dsimp only
      split
      · rfl
      · rfl

theorem unsignedTransactionOf_eq :
    unsignedTransactionOf global = (Psbt.unsignedTransactionOf global).mapError Fault.error := by
  unfold unsignedTransactionOf Psbt.unsignedTransactionOf
  cases hLookup : Psbt.lookup Psbt.globalUnsignedTx global with
  | none => rfl
  | some unsignedTx =>
    dsimp only
    rw [parseTransaction_eq (fits_of_lookup hGlobal hLookup)]
    cases Rpa.parseTransaction unsignedTx with
    | error error => rfl
    | ok tx =>
      dsimp only [Except.mapError, bind, Except.bind]
      split
      · rfl
      · rw [checkCount_eq hGlobal, checkCount_eq hGlobal]
        cases Psbt.checkCount global Psbt.globalInputCount tx.1.length with
        | error error => rfl
        | ok _ =>
          cases Psbt.checkCount global Psbt.globalOutputCount tx.2.length with
          | error error => rfl
          | ok _ => rfl

end

section

variable (hFits : FitsWord raw)
include hFits

/- By induction over how many maps are read. -/
theorem readInputs_agrees (index count i : Nat) :
    AgreesAt (Psbt.readInputs index count) (readInputs index count) raw i := by
  induction count generalizing index i with
  | zero => rfl
  | succ count ih =>
    apply (within_agrees (readMap_agrees hFits Psbt.inputSingletons i) "input" index).bind
    intro fields stop _
    apply (lift_agrees (foldlM_noteField index fields {}) stop).bind
    intro input stop _
    apply (ih (index + 1) stop).bind
    intro inputs stop _
    exact AgreesAt.pure (input :: inputs) stop

theorem readOutputs_agrees (index count i : Nat) :
    AgreesAt (Psbt.readOutputs index count) (readOutputs index count) raw i := by
  induction count generalizing index i with
  | zero => rfl
  | succ count ih =>
    apply (within_agrees (readMap_agrees hFits Psbt.outputSingletons i) "output" index).bind
    intro _ stop _
    exact ih (index + 1) stop

theorem readMaps_agrees (i : Nat) : AgreesAt Psbt.readMaps readMaps raw i := by
  apply (readMap_agrees hFits Psbt.globalSingletons i).bind
  intro global stop hRead
  have hGlobal := fits_of_readFields hFits (List.forall_mem_nil _) hRead
  apply (lift_agrees (unsignedTransactionOf_eq hGlobal) stop).bind
  intro found stop _
  rcases found with ⟨unsignedTx, txInputs, txOutputs⟩
  apply (readInputs_agrees hFits 0 txInputs.length stop).bind
  intro inputs stop _
  apply (readOutputs_agrees hFits 0 txOutputs.length stop).bind
  intro _ stop _
  exact AgreesAt.pure _ stop

/-
  Index by index, a file that fits the memory is parsed to what `Psbt.parse` says: no index is out
  of range and no sum of positions overflows.
-/
theorem parse_eq : parse raw = (Psbt.parse raw).mapError Fault.error := by
  unfold parse Psbt.parse
  by_cases hShort : raw.length < Psbt.psbtMagic.length
  · have hMagic : hasMagic raw = .ok false := if_pos hShort
    rw [bind_of_ok hMagic, if_pos (Or.inl hShort)]
    rfl
  · have hMagic :
        hasMagic raw = .ok (decide (raw.take Psbt.psbtMagic.length = Psbt.psbtMagic)) := by
      have hStart :
          (sliceOf raw 0 Psbt.psbtMagic.length : Except (Fault CliError) _) =
            .ok (raw.take Psbt.psbtMagic.length) :=
        sliceOf_of_le (Nat.zero_le _) (Nat.le_of_not_lt hShort)
      unfold hasMagic
      rw [if_neg hShort, bind_of_ok hStart]
    rw [bind_of_ok hMagic]
    by_cases hSame : raw.take Psbt.psbtMagic.length = Psbt.psbtMagic
    · rw [if_pos (decide_eq_true hSame), if_neg (not_or.mpr ⟨hShort, not_not.mpr hSame⟩)]
      have hMaps := readMaps_agrees hFits Psbt.psbtMagic.length
      cases hRead : Psbt.readMaps raw Psbt.psbtMagic.length with
      | error error =>
        rw [hMaps.of_error hRead]
        rfl
      | ok found =>
        rw [bind_of_ok (hMaps.of_ok hRead)]
        rcases found with ⟨psbt, stop⟩
        dsimp only
        split
        · rfl
        · rfl
    · rw [if_neg (by rw [decide_eq_true_eq]; exact hSame), if_pos (Or.inr hSame)]
      rfl

end

end

end Indexed

end OptnWallet
