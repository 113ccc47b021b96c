import OptnWallet.Library.ByteFormat

/-
  Half of what a byte format says: readers that succeed on bytes of a layout only, whatever else
  makes them fail, and layouts whose bytes cannot be read in two ways.

  Main declarations:
    * `ByteFormat.Layout.Unique`
    * `ByteFormat.ReadsOnly`
    * `ByteFormat.ReadsOnly.bind` and `ByteFormat.ReadsOnly.many`
    * `ByteFormat.ReadsPiece`
-/

--- Layouts Read in One Way

namespace ByteFormat

variable {α β : Type}

namespace Layout

/- Bytes that start with a value start with no other. -/
def Unique (layout : Layout α) : Prop :=
  ∀ value value' piece piece' tail tail',
    layout value piece →
      layout value' piece' →
      piece ++ tail = piece' ++ tail' →
      value = value' ∧ piece = piece'

variable {layout : Layout α} {values : List α}

/- Two lists of one length, by induction over the first. -/
theorem Unique.list (hUnique : layout.Unique) {values' : List α}
    {piece piece' tail tail' : List UInt8} (hLength : values.length = values'.length)
    (hPiece : layout.list values piece) (hPiece' : layout.list values' piece')
    (hSame : piece ++ tail = piece' ++ tail') : values = values' ∧ piece = piece' := by
  induction values generalizing values' piece piece' with
  | nil =>
    cases values' with
    | nil =>
      rw [show piece = [] from hPiece,
        show piece' = [] from hPiece']
      exact ⟨rfl, rfl⟩
    | cons value' values' => cases hLength
  | cons value values ih =>
    cases values' with
    | nil => cases hLength
    | cons value' values' =>
      rcases hPiece with ⟨first, rest, rfl, hFirst, hRest⟩
      rcases hPiece' with ⟨first', rest', rfl, hFirst', hRest'⟩
      rw [List.append_assoc, List.append_assoc] at hSame
      rcases hUnique _ _ _ _ _ _ hFirst hFirst' hSame with ⟨rfl, rfl⟩
      rw [List.append_cancel_left_eq] at hSame
      rcases ih (Nat.succ.inj hLength) hRest hRest' hSame with ⟨rfl, rfl⟩
      exact ⟨rfl, rfl⟩

/- Values that are made of others, which the bytes spell. -/
def via (layout : Layout β) (make : β → α) : Layout α :=
  fun value bytes => ∃ source, layout source bytes ∧ value = make source

theorem list_via {layout : Layout β} {make : β → α} {bytes : List UInt8}
    (hList : (layout.via make).list values bytes) :
    ∃ sources, layout.list sources bytes ∧ values = sources.map make := by
  induction values generalizing bytes with
  | nil => exact ⟨[], hList, rfl⟩
  | cons value values ih =>
    rcases hList with ⟨piece, tail, rfl, ⟨source, hSource, rfl⟩, hTail⟩
    rcases ih hTail with ⟨sources, hSources, rfl⟩
    exact ⟨source :: sources, ⟨piece, tail, rfl, hSource, hSources⟩, rfl⟩

/- Where each value holds its own bytes, a list of values is spelled by these. -/
theorem list_of_kept {kept : α → List UInt8} {Sound : α → Prop}
    (hLayout : ∀ value bytes, layout value bytes → kept value = bytes ∧ Sound value)
    {bytes : List UInt8} (hList : layout.list values bytes) :
    bytes = (values.map kept).flatten ∧ ∀ value ∈ values, Sound value := by
  induction values generalizing bytes with
  | nil => exact ⟨hList, List.forall_mem_nil _⟩
  | cons value values ih =>
    rcases hList with ⟨piece, tail, rfl, hPiece, hTail⟩
    rcases hLayout _ _ hPiece with ⟨rfl, hSound⟩
    rcases ih hTail with ⟨rfl, hRest⟩
    exact ⟨rfl, List.forall_mem_cons.mpr ⟨hSound, hRest⟩⟩

end Layout

--- Readers That Read a Layout Only

/- What the reader accepts are bytes of the layout. -/
def ReadsOnly {ε : Type} (reader : Reader ε α) (layout : Layout α) : Prop :=
  ∀ bytes start value stop,
    start ≤ bytes.length →
      reader bytes start = .ok (value, stop) →
      ∃ piece, piece <+: bytes.drop start ∧ layout value piece ∧ stop = start + piece.length

namespace ReadsOnly

variable {ε : Type} {reader : Reader ε α} {layout : Layout α}

theorem of_readsAs (hReads : ReadsAs reader layout) : ReadsOnly reader layout := by
  intro bytes start value stop hStart hRead
  exact (hReads bytes start value stop hStart).mp hRead

theorem imp {layout' : Layout α} (hReads : ReadsOnly reader layout)
    (hImp : ∀ value bytes, layout value bytes → layout' value bytes) :
    ReadsOnly reader layout' := by
  intro bytes start value stop hStart hRead
  rcases hReads bytes start value stop hStart hRead with ⟨piece, hPrefix, hLayout, hStop⟩
  exact ⟨piece, hPrefix, hImp _ _ hLayout, hStop⟩

theorem mapError {ε' : Type} (hReads : ReadsOnly reader layout) (tell : ε → ε') :
    ReadsOnly (reader.mapError tell) layout := by
  intro bytes start value stop hStart hRead
  exact hReads bytes start value stop hStart (Reader.mapError_eq_ok_iff.mp hRead)

theorem bind {next : α → Reader ε β} {first : Layout α} {rest : α → Layout β}
    (hFirst : ReadsOnly reader first) (hRest : ∀ value, ReadsOnly (next value) (rest value)) :
    ReadsOnly (reader >>= next) (first.andThen rest) := by
  intro bytes start value stop hStart hRead
  rcases Reader.bind_eq_ok_iff.mp hRead with ⟨before, middle, hBefore, hNext⟩
  rcases hFirst bytes start before middle hStart hBefore with ⟨piece, hPrefix, hPiece, rfl⟩
  have hMiddle := add_length_le_of_isPrefixOf_drop hStart hPrefix
  rcases hRest before bytes _ value stop hMiddle hNext with ⟨tail, hTail, hLayout, rfl⟩
  refine ⟨piece ++ tail, ?_, ⟨before, piece, tail, rfl, hPiece, hLayout⟩, ?_⟩
  · rcases hPrefix with ⟨after, hAfter⟩
    rw [← List.drop_drop, ← hAfter, List.drop_left] at hTail
    rw [← hAfter]
    exact (List.prefix_append_right_inj piece).mpr hTail
  · rw [List.length_append, Nat.add_assoc]

theorem many (hReads : ReadsOnly reader layout) (count : Nat) :
    ReadsOnly (Reader.many reader count)
      (fun values bytes => values.length = count ∧ layout.list values bytes) := by
  induction count with
  | zero =>
    apply (of_readsAs (ReadsAs.pure [])).imp
    rintro values bytes ⟨rfl, rfl⟩
    exact ⟨rfl, rfl⟩
  | succ count ih =>
    apply (hReads.bind fun value => ih.bind fun values => of_readsAs
      (ReadsAs.pure (value :: values))).imp
    rintro values bytes
      ⟨value, piece, _, rfl, hPiece, rest, tail, _, rfl, ⟨hLength, hTail⟩, rfl, rfl⟩
    refine ⟨?_, piece, tail, ?_, hPiece, hTail⟩
    · rw [List.length_cons, hLength]
    · rw [List.append_nil]

end ReadsOnly

--- Readers That Read a Piece

/- The reader reads a piece as the value wherever it stands, in bytes that are shorter than the
   limit. -/
def ReadsPiece {ε : Type} (limit : Nat) (reader : Reader ε α) (piece : List UInt8) (value : α) :
    Prop :=
  ∀ before after,
    (before ++ (piece ++ after)).length < limit →
      reader (before ++ (piece ++ after)) before.length = .ok (value, before.length + piece.length)

namespace ReadsPiece

variable {ε : Type} {limit : Nat} {reader : Reader ε α} {piece : List UInt8}

theorem of_readsAs {layout : Layout α} (hReads : ReadsAs reader layout) {value : α}
    (hPiece : layout value piece) : ReadsPiece limit reader piece value := by
  intro before after _
  have hStart : before.length ≤ (before ++ (piece ++ after)).length := by
    rw [List.length_append]
    exact Nat.le_add_right _ _
  apply (hReads _ _ _ _ hStart).mpr
  refine ⟨piece, ?_, hPiece, rfl⟩
  rw [List.drop_left]
  exact List.prefix_append _ _

theorem bind {next : α → Reader ε β} {tail : List UInt8} {first : α} {value : β}
    (hFirst : ReadsPiece limit reader piece first)
    (hNext : ReadsPiece limit (next first) tail value) :
    ReadsPiece limit (reader >>= next) (piece ++ tail) value := by
  intro before after hLimit
  rw [List.append_assoc] at hLimit ⊢
  rw [Reader.bind_of_ok (hFirst before (tail ++ after) hLimit)]
  have hSame : before ++ (piece ++ (tail ++ after)) = before ++ piece ++ (tail ++ after) := by
    rw [List.append_assoc]
  rw [hSame] at hLimit ⊢
  have hRead := hNext (before ++ piece) after hLimit
  have hLength : (piece ++ tail).length = piece.length + tail.length := List.length_append
  rw [List.length_append, Nat.add_assoc, ← hLength] at hRead
  exact hRead

theorem pure (value : α) : ReadsPiece limit (Pure.pure value : Reader ε α) [] value :=
  fun _ _ _ => rfl

theorem many {bytesOf : α → List UInt8}
    (hReads : ∀ value, ReadsPiece limit reader (bytesOf value) value) (values : List α) :
    ReadsPiece limit (Reader.many reader values.length) (values.flatMap bytesOf) values := by
  induction values with
  | nil => exact pure []
  | cons value values ih =>
    apply (hReads value).bind
    change ReadsPiece limit _ (values.flatMap bytesOf) _
    rw [← List.append_nil (values.flatMap bytesOf)]
    apply ih.bind
    exact pure (value :: values)

/- The whole of a byte string. -/
theorem readWhole {value : α} (hReads : ReadsPiece limit reader piece value)
    (hLimit : piece.length < limit) : reader piece 0 = .ok (value, piece.length) := by
  have hRead := hReads [] []
  rw [List.nil_append, List.append_nil, List.length_nil, Nat.zero_add] at hRead
  exact hRead hLimit

end ReadsPiece

end ByteFormat
