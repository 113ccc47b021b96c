import Mathlib.Algebra.Order.Ring.Nat
import Mathlib.Data.List.Forall2

/-
  Byte formats: readers that move a position through a byte string, and layouts, which say what
  bytes a value takes. A reader reads as a layout when it succeeds exactly on the bytes that the
  layout allows, wherever they stand.

  Main declarations:
    * `ByteFormat.Reader` and `ByteFormat.Layout`
    * `ByteFormat.ReadsAs` and `ByteFormat.ReadsAt`
    * `ByteFormat.ReadsAs.bind` and `ByteFormat.ReadsAs.many`
    * `ByteFormat.ReadsAs.unique`
    * `ByteFormat.ReadsAs.readAll_eq_ok_iff`
-/

--- Readers

namespace ByteFormat

/- From bytes and a position to a value and the position behind it. -/
def Reader (ε α : Type) : Type := List UInt8 → Nat → Except ε (α × Nat)

namespace Reader

variable {ε α β : Type}

instance instMonad : Monad (Reader ε) where
  pure value := fun _ position => .ok (value, position)
  bind reader next := fun bytes position =>
    match reader bytes position with
    | .ok (value, stop) => next value bytes stop
    | .error error => .error error

/- A decision that reads nothing. -/
def lift (answer : Except ε α) : Reader ε α :=
  fun _ position =>
    match answer with
    | .ok value => .ok (value, position)
    | .error error => .error error

/- The same reader with its errors told another way. -/
def mapError {ε' : Type} (tell : ε → ε') (reader : Reader ε α) : Reader ε' α :=
  fun bytes position => (reader bytes position).mapError tell

/- The next `count` bytes. -/
def take (truncated : ε) (count : Nat) : Reader ε (List UInt8) :=
  fun bytes position =>
    if position + count ≤ bytes.length then .ok ((bytes.drop position).take count, position + count)
    else .error truncated

/- The next byte. -/
def takeByte (truncated : ε) : Reader ε UInt8 :=
  fun bytes position =>
    match bytes[position]? with
    | some byte => .ok (byte, position + 1)
    | none => .error truncated

/- The next `count` bytes as an array of that size. -/
def takeArray (truncated : ε) (count : Nat) : Reader ε (Vector UInt8 count) :=
  fun bytes position =>
    if hRoom : position + count ≤ bytes.length then .ok
        (⟨((bytes.drop position).take count).toArray, by
            simp only [List.size_toArray, List.length_take, List.length_drop]
            omega⟩,
          position + count)
    else .error truncated

/- There are `count` bytes from `offset` on. -/
def need (truncated : ε) (offset count : Nat) : Reader ε Unit :=
  fun bytes position =>
    if position + offset + count ≤ bytes.length then .ok ((), position)
    else .error truncated

/- The `count` bytes from `offset` on, left where they are. -/
def peek (offset count : Nat) : Reader ε (List UInt8) :=
  fun bytes position => .ok ((bytes.drop (position + offset)).take count, position)

def advance (count : Nat) : Reader ε Unit :=
  fun _ position => .ok ((), position + count)

/- `count` values, one after the other. -/
def many (reader : Reader ε α) : Nat → Reader ε (List α)
  | 0 => pure []
  | count + 1 => do
      let value ← reader
      let values ← many reader count
      return value :: values

/- A value that takes a whole byte string. -/
def readAll (reader : Reader ε α) (trailing : ε) (bytes : List UInt8) : Except ε α :=
  match reader bytes 0 with
  | .ok (value, stop) =>
    if stop ≠ bytes.length then .error trailing
    else .ok value
  | .error error => .error error

variable {reader : Reader ε α} {next : α → Reader ε β} {bytes : List UInt8} {start stop : Nat}

theorem bind_eq_ok_iff {value : β} :
    (reader >>= next) bytes start = .ok (value, stop) ↔
    ∃ first middle,
      reader bytes start = .ok (first, middle) ∧ next first bytes middle = .ok (value, stop) := by
  change
    (match reader bytes start with
      | .ok (value, stop) => next value bytes stop
      | .error error => .error error) = _ ↔ _
  cases reader bytes start with
  | error error => simp
  | ok found =>
    rcases found with ⟨first, middle⟩
    simp

variable {value : α}

theorem pure_eq_ok_iff {found : α} :
    (pure value : Reader ε α) bytes start = .ok (found, stop) ↔ found = value ∧ stop = start := by
  change (Except.ok (value, start) : Except ε _) = _ ↔ _
  rw [Except.ok.injEq, Prod.mk.injEq, eq_comm, eq_comm (a := start)]

theorem mapError_eq_ok_iff {ε' : Type} {tell : ε → ε'} {found : α × Nat} :
    reader.mapError tell bytes start = .ok found ↔ reader bytes start = .ok found := by
  unfold mapError
  cases reader bytes start with
  | error error => simp [Except.mapError]
  | ok value => simp [Except.mapError]

theorem lift_eq_ok_iff {answer : Except ε α} :
    Reader.lift answer bytes start = .ok (value, stop) ↔ answer = .ok value ∧ stop = start := by
  unfold Reader.lift
  cases answer with
  | error error => simp
  | ok answered =>
    dsimp only
    rw [Except.ok.injEq, Prod.mk.injEq, Except.ok.injEq, eq_comm (a := start)]

theorem bind_of_ok (hRead : reader bytes start = .ok (value, stop)) :
    (reader >>= next) bytes start = next value bytes stop := by
  change
    (match reader bytes start with
      | .ok (value, stop) => next value bytes stop
      | .error error => .error error) = _
  rw [hRead]

theorem bind_of_error {error : ε} (hRead : reader bytes start = .error error) :
    (reader >>= next) bytes start = .error error := by
  change
    (match reader bytes start with
      | .ok (value, stop) => next value bytes stop
      | .error error => .error error) = _
  rw [hRead]

theorem id_map_reader (reader : Reader ε α) : id <$> reader = reader := by
  funext bytes position
  change
    (match reader bytes position with
      | .ok (value, stop) => .ok (value, stop)
      | .error error => .error error) = reader bytes position
  cases reader bytes position with
  | error error => rfl
  | ok found => rfl

theorem bind_assoc_reader {γ : Type} (reader : Reader ε α) (next : α → Reader ε β)
    (last : β → Reader ε γ) :
    reader >>= next >>= last = reader >>= fun value => next value >>= last := by
  funext bytes position
  cases hRead : reader bytes position with
  | error error =>
    rw [bind_of_error hRead]
    exact bind_of_error (bind_of_error hRead)
  | ok found =>
    rcases found with ⟨value, stop⟩
    rw [bind_of_ok hRead]
    change
      (match (reader >>= next) bytes position with
        | .ok (value, stop) => last value bytes stop
        | .error error => .error error) = _
    rw [bind_of_ok hRead]
    rfl

instance instLawfulMonad : LawfulMonad (Reader ε) :=
  LawfulMonad.mk' (Reader ε) id_map_reader (fun _ _ => rfl) bind_assoc_reader

variable (truncated : ε) (count : Nat)

/- An array is a list whose length is known. -/
theorem take_eq_map_takeArray :
    take truncated count = Vector.toList <$> takeArray truncated count := by
  funext bytes position
  rw [map_eq_pure_bind]
  by_cases hRoom : position + count ≤ bytes.length
  · rw [bind_of_ok (dif_pos hRoom)]
    exact if_pos hRoom
  · rw [bind_of_error (dif_neg hRoom)]
    exact if_neg hRoom

/-
  Bytes that are checked for, looked at and then skipped are taken.
-/
theorem need_peek_advance (next : List UInt8 → Reader ε β) :
    (do
      need truncated 0 count
      let bytes ← peek 0 count
      advance count
      next bytes) =
    take truncated count >>= next := by
  funext bytes position
  by_cases hRoom : position + count ≤ bytes.length
  · rw [bind_of_ok (if_pos hRoom), bind_of_ok rfl, bind_of_ok rfl, bind_of_ok (if_pos hRoom)]
    rfl
  · rw [bind_of_error (if_neg hRoom), bind_of_error (if_neg hRoom)]

theorem need_advance (next : Reader ε β) :
    (do
      need truncated 0 count
      advance count
      next) =
    take truncated count >>= fun _ => next := by
  funext bytes position
  by_cases hRoom : position + count ≤ bytes.length
  · rw [bind_of_ok (if_pos hRoom), bind_of_ok rfl, bind_of_ok (if_pos hRoom)]
  · rw [bind_of_error (if_neg hRoom), bind_of_error (if_neg hRoom)]

/- The same for two fields that are checked for at once. -/
theorem need_peek_peek_advance (count count' : Nat)
    (next : List UInt8 → List UInt8 → Reader ε β) :
    (do
      need truncated 0 (count + count')
      let bytes ← peek 0 count
      let bytes' ← peek count count'
      advance (count + count')
      next bytes bytes') =
    (do
      let bytes ← take truncated count
      let bytes' ← take truncated count'
      next bytes bytes') := by
  funext bytes position
  by_cases hRoom : position + (count + count') ≤ bytes.length
  · have hFirst : position + count ≤ bytes.length := by omega
    have hSecond : position + count + count' ≤ bytes.length := by omega
    rw [bind_of_ok (if_pos hRoom), bind_of_ok rfl, bind_of_ok rfl, bind_of_ok rfl,
      bind_of_ok (if_pos hFirst), bind_of_ok (if_pos hSecond), Nat.add_assoc]
    rfl
  · rw [bind_of_error (if_neg hRoom)]
    by_cases hFirst : position + count ≤ bytes.length
    · have hSecond : ¬ position + count + count' ≤ bytes.length := by omega
      rw [bind_of_ok (if_pos hFirst), bind_of_error (if_neg hSecond)]
    · rw [bind_of_error (if_neg hFirst)]

/- The same for a field and another, unused one behind it. -/
theorem need_peek_need_advance (count count' : Nat)
    (next : List UInt8 → Reader ε β) :
    (do
      need truncated 0 count
      let bytes ← peek 0 count
      need truncated count count'
      advance (count + count')
      next bytes) =
    (do
      let bytes ← take truncated count
      let _ ← take truncated count'
      next bytes) := by
  funext bytes position
  by_cases hFirst : position + count ≤ bytes.length
  · rw [bind_of_ok (if_pos hFirst), bind_of_ok rfl]
    by_cases hSecond : position + count + count' ≤ bytes.length
    · rw [bind_of_ok (if_pos hSecond), bind_of_ok rfl, bind_of_ok (if_pos hFirst),
        bind_of_ok (if_pos hSecond), Nat.add_assoc]
      rfl
    · rw
        [bind_of_error (if_neg hSecond), bind_of_ok (if_pos hFirst), bind_of_error (if_neg hSecond)]
  · rw [bind_of_error (if_neg hFirst), bind_of_error (if_neg hFirst)]

end Reader

--- Layouts

/- The bytes that a value may take. -/
def Layout (α : Type) : Type := α → List UInt8 → Prop

namespace Layout

variable {α β : Type}

/- One value and then another, which may depend on it. -/
def andThen (first : Layout α) (rest : α → Layout β) : Layout β :=
  fun value bytes =>
    ∃ before piece tail, bytes = piece ++ tail ∧ first before piece ∧ rest before value tail

/- Values one after the other. -/
def list (layout : Layout α) : Layout (List α)
  | [], bytes => bytes = []
  | value :: values, bytes =>
    ∃ piece tail, bytes = piece ++ tail ∧ layout value piece ∧ list layout values tail

/-
  Where each value comes from a source that fixes its bytes, so does a list of values.  By
  induction over the values.
-/
theorem list_iff {layout : Layout α} {source : β → α → Prop} {bytesOf : β → List UInt8}
    (hLayout : ∀ value bytes, layout value bytes ↔ ∃ b, source b value ∧ bytes = bytesOf b)
    {values : List α} {bytes : List UInt8} :
    layout.list values bytes ↔
    ∃ sources, List.Forall₂ source sources values ∧ bytes = sources.flatMap bytesOf := by
  induction values generalizing bytes with
  | nil =>
    constructor
    · intro hNil
      exact ⟨[], List.Forall₂.nil, hNil⟩
    · rintro ⟨sources, hSources, rfl⟩
      cases hSources
      rfl
  | cons value values ih =>
    constructor
    · rintro ⟨piece, tail, rfl, hPiece, hTail⟩
      rcases (hLayout _ _).mp hPiece with ⟨b, hSource, rfl⟩
      rcases ih.mp hTail with ⟨sources, hSources, rfl⟩
      exact ⟨b :: sources, List.Forall₂.cons hSource hSources, rfl⟩
    · rintro ⟨sources, hSources, rfl⟩
      cases hSources with
      | cons hSource hSources =>
        rename_i b sources
        exact ⟨bytesOf b, sources.flatMap bytesOf, rfl, (hLayout _ _).mpr ⟨b, hSource, rfl⟩,
          ih.mpr ⟨sources, hSources, rfl⟩⟩

end Layout

/- A choice for each value is a choice for the list. -/
theorem exists_forall₂_iff {α β : Type} {R : α → β → Prop} {values : List α} :
    (∃ found, List.Forall₂ R values found) ↔ ∀ value ∈ values, ∃ found, R value found := by
  induction values with
  | nil => simp
  | cons value values ih =>
    rw [List.forall_mem_cons, ← ih]
    constructor
    · rintro ⟨_, hFound⟩
      cases hFound with
      | cons hFirst hRest => exact ⟨⟨_, hFirst⟩, _, hRest⟩
    · rintro ⟨⟨first, hFirst⟩, rest, hRest⟩
      exact ⟨first :: rest, List.Forall₂.cons hFirst hRest⟩

/- A reader that succeeds exactly on the layout's bytes. -/
def ReadsAs {ε α : Type} (reader : Reader ε α) (layout : Layout α) : Prop :=
  ∀ bytes start value stop,
    start ≤ bytes.length →
      (reader bytes start = .ok (value, stop) ↔ ∃ piece,
        piece <+: bytes.drop start ∧ layout value piece ∧ stop = start + piece.length)

/- The same at one place of one byte string. -/
def ReadsAt {ε α : Type} (reader : Reader ε α) (layout : Layout α) (bytes : List UInt8)
    (start : Nat) : Prop :=
  ∀ value stop,
    reader bytes start = .ok (value, stop) ↔
      ∃ piece, piece <+: bytes.drop start ∧ layout value piece ∧ stop = start + piece.length

/- Bytes at a place leave the rest behind them. -/
theorem isPrefixOf_drop_append {piece tail bytes : List UInt8} {start : Nat}
    (hPrefix : piece ++ tail <+: bytes.drop start) :
    tail <+: bytes.drop (start + piece.length) := by
  rcases hPrefix with ⟨after, hAfter⟩
  rw [← List.drop_drop, ← hAfter, List.append_assoc, List.drop_left]
  exact List.prefix_append _ _

theorem add_length_le_of_isPrefixOf_drop {piece bytes : List UInt8} {start : Nat}
    (hStart : start ≤ bytes.length) (hPrefix : piece <+: bytes.drop start) :
    start + piece.length ≤ bytes.length := by
  have hLength := hPrefix.length_le
  rw [List.length_drop] at hLength
  omega

namespace ReadsAt

variable {ε α β : Type}

theorem congr {reader : Reader ε α} {layout layout' : Layout α} {bytes : List UInt8} {start : Nat}
    (hReads : ReadsAt reader layout bytes start)
    (hSame : ∀ value bytes, layout value bytes ↔ layout' value bytes) :
    ReadsAt reader layout' bytes start := by
  intro value stop
  rw [hReads value stop]
  constructor
  · rintro ⟨piece, hPrefix, hLayout, hStop⟩
    exact ⟨piece, hPrefix, (hSame _ _).mp hLayout, hStop⟩
  · rintro ⟨piece, hPrefix, hLayout, hStop⟩
    exact ⟨piece, hPrefix, (hSame _ _).mpr hLayout, hStop⟩

/- What follows is read where the first piece ends. -/
theorem bind {reader : Reader ε α} {next : α → Reader ε β} {first : Layout α} {rest : α → Layout β}
    {bytes : List UInt8} {start : Nat} (hFirst : ReadsAt reader first bytes start)
    (hRest : ∀ value piece,
        first value piece →
          piece <+: bytes.drop start →
          ReadsAt (next value) (rest value) bytes (start + piece.length)) :
    ReadsAt (reader >>= next) (first.andThen rest) bytes start := by
  intro value stop
  rw [Reader.bind_eq_ok_iff]
  constructor
  · rintro ⟨before, middle, hBefore, hNext⟩
    rcases (hFirst _ _).mp hBefore with ⟨piece, hPrefix, hPiece, rfl⟩
    rcases (hRest _ _ hPiece hPrefix _ _).mp hNext with ⟨tail, hTail, hLayout, rfl⟩
    refine ⟨piece ++ tail, ?_, ⟨before, piece, tail, rfl, hPiece, hLayout⟩, ?_⟩
    · rcases hPrefix with ⟨after, hAfter⟩
      rw [← List.drop_drop, ← hAfter, List.drop_left] at hTail
      rw [← hAfter]
      exact (List.prefix_append_right_inj piece).mpr hTail
    · rw [List.length_append, Nat.add_assoc]
  · rintro ⟨_, hWhole, ⟨before, piece, tail, rfl, hPiece, hLayout⟩, rfl⟩
    have hPrefix : piece <+: bytes.drop start := (List.prefix_append piece tail).trans hWhole
    refine ⟨before, start + piece.length, ?_, ?_⟩
    · apply (hFirst _ _).mpr
      exact ⟨piece, hPrefix, hPiece, rfl⟩
    · apply (hRest _ _ hPiece hPrefix _ _).mpr
      refine ⟨tail, isPrefixOf_drop_append hWhole, hLayout, ?_⟩
      rw [List.length_append, Nat.add_assoc]

end ReadsAt

namespace ReadsAs

open Reader

variable {ε α β : Type} {reader : Reader ε α} {layout : Layout α}

/- One place and every place. -/
theorem readsAt {bytes : List UInt8} {start : Nat} (hReads : ReadsAs reader layout)
    (hStart : start ≤ bytes.length) : ReadsAt reader layout bytes start :=
  fun value stop => hReads bytes start value stop hStart

theorem congr {layout' : Layout α} (hReads : ReadsAs reader layout)
    (hSame : ∀ value bytes, layout value bytes ↔ layout' value bytes) : ReadsAs reader layout' := by
  intro bytes start value stop hStart
  exact (hReads.readsAt hStart).congr hSame value stop

/- A decision takes no bytes. -/
theorem lift (answer : Except ε α) :
    ReadsAs (Reader.lift answer) (fun value bytes => answer = .ok value ∧ bytes = []) := by
  intro bytes start value stop hStart
  unfold Reader.lift
  cases answer with
  | error error => simp
  | ok answered =>
    dsimp only
    rw [Except.ok.injEq, Prod.mk.injEq]
    constructor
    · rintro ⟨rfl, rfl⟩
      exact ⟨[], List.nil_prefix, ⟨rfl, rfl⟩, rfl⟩
    · rintro ⟨piece, -, ⟨hAnswer, rfl⟩, rfl⟩
      exact ⟨Except.ok.inj hAnswer, rfl⟩

theorem pure (value : α) :
    ReadsAs (Pure.pure value : Reader ε α) (fun found bytes => found = value ∧ bytes = []) := by
  intro bytes start found stop hStart
  rw [pure_eq_ok_iff]
  constructor
  · rintro ⟨rfl, rfl⟩
    exact ⟨[], List.nil_prefix, ⟨rfl, rfl⟩, rfl⟩
  · rintro ⟨piece, -, ⟨rfl, rfl⟩, rfl⟩
    exact ⟨rfl, rfl⟩

variable (truncated : ε)

theorem takeByte : ReadsAs (Reader.takeByte truncated) (fun value bytes => bytes = [value]) := by
  intro bytes start value stop hStart
  unfold Reader.takeByte
  cases hByte : bytes[start]? with
  | none =>
    rw [List.getElem?_eq_none_iff] at hByte
    rw [List.drop_eq_nil_iff.mpr hByte]
    constructor
    · intro hError
      cases hError
    · rintro ⟨piece, hPrefix, rfl, -⟩
      cases List.prefix_nil.mp hPrefix
  | some byte =>
    dsimp only
    rw [Except.ok.injEq, Prod.mk.injEq]
    have hDrop : bytes.drop start = byte :: bytes.drop (start + 1) := by
      rcases List.getElem?_eq_some_iff.mp hByte with ⟨hLt, rfl⟩
      exact List.drop_eq_getElem_cons hLt
    rw [hDrop]
    constructor
    · rintro ⟨rfl, rfl⟩
      exact ⟨_, List.prefix_append [byte] _, rfl, rfl⟩
    · rintro ⟨piece, hPrefix, rfl, rfl⟩
      exact ⟨(List.cons_prefix_cons.mp hPrefix).1.symm, rfl⟩

theorem take (count : Nat) :
    ReadsAs (Reader.take truncated count)
      (fun value bytes => value = bytes ∧ bytes.length = count) := by
  intro bytes start value stop hStart
  unfold Reader.take
  constructor
  · intro hTake
    split at hTake
    · rename_i hRoom
      cases hTake
      have hLength : ((bytes.drop start).take count).length = count := by
        rw [List.length_take, List.length_drop]
        omega
      refine ⟨_, List.take_prefix _ _, ⟨rfl, hLength⟩, ?_⟩
      rw [hLength]
    · cases hTake
  · rintro ⟨piece, hPrefix, ⟨rfl, rfl⟩, rfl⟩
    have hLength := hPrefix.length_le
    rw [List.length_drop] at hLength
    rw [if_pos (by omega), ← List.prefix_iff_eq_take.mp hPrefix]

theorem takeArray (count : Nat) :
    ReadsAs (Reader.takeArray truncated count) (fun value bytes => bytes = value.toList) := by
  intro bytes start value stop hStart
  unfold Reader.takeArray
  constructor
  · intro hTake
    split at hTake
    · rename_i hRoom
      cases hTake
      refine ⟨_, ?_, rfl, ?_⟩
      · exact List.take_prefix _ _
      · rw [Vector.length_toList]
    · cases hTake
  · rintro ⟨piece, hPrefix, rfl, rfl⟩
    have hLength := hPrefix.length_le
    have hTaken := List.prefix_iff_eq_take.mp hPrefix
    rw [Vector.length_toList, List.length_drop] at hLength
    rw [Vector.length_toList] at hTaken ⊢
    rw [dif_pos (by omega)]
    congr 2
    rcases value with ⟨array, hSize⟩
    congr 1
    rw [← hTaken]
    rfl

theorem bind {next : α → Reader ε β} {first : Layout α} {rest : α → Layout β}
    (hFirst : ReadsAs reader first) (hRest : ∀ value, ReadsAs (next value) (rest value)) :
    ReadsAs (reader >>= next) (first.andThen rest) := by
  intro bytes start value stop hStart
  apply (hFirst.readsAt hStart).bind
  intro before piece _ hPrefix
  apply (hRest before).readsAt
  exact add_length_le_of_isPrefixOf_drop hStart hPrefix

variable (hReads : ReadsAs reader layout)
include hReads

theorem map (f : α → β) :
    ReadsAs (f <$> reader) (fun value bytes => ∃ read, f read = value ∧ layout read bytes) := by
  rw [map_eq_pure_bind]
  apply (hReads.bind fun read => ReadsAs.pure (f read)).congr
  intro value bytes
  constructor
  · rintro ⟨read, piece, _, rfl, hPiece, rfl, rfl⟩
    refine ⟨read, rfl, ?_⟩
    rw [List.append_nil]
    exact hPiece
  · rintro ⟨read, rfl, hLayout⟩
    exact ⟨read, bytes, [], (List.append_nil _).symm, hLayout, rfl, rfl⟩

/- A reader followed by a decision about what it read. -/
theorem bindLift (f : α → Except ε β) :
    ReadsAs (reader >>= fun read => Reader.lift (f read))
      (fun value bytes => ∃ read, f read = .ok value ∧ layout read bytes) := by
  apply (hReads.bind fun read => ReadsAs.lift (f read)).congr
  intro value bytes
  constructor
  · rintro ⟨read, piece, _, rfl, hPiece, hValue, rfl⟩
    refine ⟨read, hValue, ?_⟩
    rw [List.append_nil]
    exact hPiece
  · rintro ⟨read, hValue, hLayout⟩
    exact ⟨read, bytes, [], (List.append_nil _).symm, hLayout, hValue, rfl⟩

theorem many (count : Nat) :
    ReadsAs (Reader.many reader count)
      (fun values bytes => values.length = count ∧ layout.list values bytes) := by
  induction count with
  | zero =>
    apply (ReadsAs.pure []).congr
    intro values bytes
    constructor
    · rintro ⟨rfl, rfl⟩
      exact ⟨rfl, rfl⟩
    · rintro ⟨hLength, hLayout⟩
      cases List.length_eq_zero_iff.mp hLength
      exact ⟨rfl, hLayout⟩
  | succ count ih =>
    apply (hReads.bind fun value => ih.bind fun values => ReadsAs.pure (value :: values)).congr
    intro values bytes
    constructor
    · rintro ⟨value, piece, _, rfl, hPiece, rest, tail, _, rfl, ⟨hLength, hTail⟩, rfl, rfl⟩
      refine ⟨?_, piece, tail, ?_, hPiece, hTail⟩
      · rw [List.length_cons, hLength]
      · rw [List.append_nil]
    · rintro ⟨hLength, hLayout⟩
      cases values with
      | nil => cases hLength
      | cons value rest =>
        rcases hLayout with ⟨piece, tail, rfl, hPiece, hTail⟩
        exact ⟨value, piece, tail, rfl, hPiece, rest, tail, [], (List.append_nil tail).symm,
          ⟨Nat.succ.inj hLength, hTail⟩, rfl, rfl⟩

/- The bytes of one layout cannot be read in two ways. -/
theorem unique {value value' : α} {piece piece' tail tail' : List UInt8}
    (hPiece : layout value piece) (hPiece' : layout value' piece')
    (hSame : piece ++ tail = piece' ++ tail') : value = value' ∧ piece = piece' := by
  have hRead : reader (piece ++ tail) 0 = .ok (value, piece.length) := by
    apply (hReads _ _ _ _ (Nat.zero_le _)).mpr
    exact ⟨piece, List.prefix_append _ _, hPiece, (Nat.zero_add _).symm⟩
  have hRead' : reader (piece ++ tail) 0 = .ok (value', piece'.length) := by
    rw [hSame]
    apply (hReads _ _ _ _ (Nat.zero_le _)).mpr
    exact ⟨piece', List.prefix_append _ _, hPiece', (Nat.zero_add _).symm⟩
  rw [hRead, Except.ok.injEq, Prod.mk.injEq] at hRead'
  exact ⟨hRead'.1, (List.append_inj hSame hRead'.2).1⟩

theorem readAll_eq_ok_iff {trailing : ε} {bytes : List UInt8} {value : α} :
    readAll reader trailing bytes = .ok value ↔ layout value bytes := by
  have hWhole : reader bytes 0 = .ok (value, bytes.length) ↔ layout value bytes := by
    rw [hReads bytes 0 value bytes.length (Nat.zero_le _), List.drop_zero]
    constructor
    · rintro ⟨piece, hPrefix, hLayout, hLength⟩
      rw [Nat.zero_add] at hLength
      rw [hPrefix.eq_of_length hLength.symm] at hLayout
      exact hLayout
    · intro hLayout
      exact ⟨bytes, List.prefix_rfl, hLayout, (Nat.zero_add _).symm⟩
  rw [← hWhole]
  unfold readAll
  cases reader bytes 0 with
  | error error => simp
  | ok found =>
    rcases found with ⟨value', stop⟩
    dsimp only
    split
    · rename_i hStop
      simp [hStop]
    · rename_i hStop
      rw [not_not] at hStop
      simp [hStop]

omit hReads in
/- What is made of values that are read as they are spelled. -/
theorem mapSpelled {Spelled : α → Prop} {spell : α → List UInt8}
    (hReads : ReadsAs reader (fun value bytes => Spelled value ∧ bytes = spell value)) (f : α → β) :
    ReadsAs (f <$> reader)
      (fun value bytes => ∃ read, (Spelled read ∧ f read = value) ∧ bytes = spell read) := by
  apply (hReads.map f).congr
  intro value bytes
  constructor
  · rintro ⟨read, hValue, hSpelled, hBytes⟩
    exact ⟨read, ⟨hSpelled, hValue⟩, hBytes⟩
  · rintro ⟨read, ⟨hSpelled, hValue⟩, hBytes⟩
    exact ⟨read, hValue, hSpelled, hBytes⟩

end ReadsAs

end ByteFormat
