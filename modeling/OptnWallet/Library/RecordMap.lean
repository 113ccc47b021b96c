import OptnWallet.Library.ByteFormat

/-
  Maps of records.  A record is a key and a value, each of them bytes that are written so that
  they can be read back, and a map is its records up to an empty key.  The reader decides on every
  key, knowing those before it.

  Main declarations:
    * `RecordMap.readMap`
    * `RecordMap.mapBytes`
    * `RecordMap.Passes`
    * `RecordMap.readsAs_readMap`
    * `RecordMap.readMap_of_written`
-/

--- Reading

namespace RecordMap

open ByteFormat

/- A key and its value. -/
abbrev Field : Type := List UInt8 × List UInt8

variable {ε : Type}

/-
  The records behind those that were read before.  The fuel bounds the number of keys that are
  still read.
-/
def readFields (recordBytes : Reader ε (List UInt8))
    (check : List (List UInt8) → List UInt8 → Except ε Unit) (exhausted : ε) :
    Nat → List Field → Reader ε (List Field)
  | 0, _ => Reader.lift (.error exhausted)
  | fuel + 1, fields => do
      let key ← recordBytes
      if key = [] then pure fields
      else do
        Reader.lift (check (fields.map Prod.fst) key)
        let value ← recordBytes
        readFields recordBytes check exhausted fuel (fields ++ [(key, value)])

/- A map has fewer keys than there are bytes left. -/
def readMap (recordBytes : Reader ε (List UInt8))
    (check : List (List UInt8) → List UInt8 → Except ε Unit) (exhausted : ε) :
    Reader ε (List Field) :=
  fun bytes position =>
    readFields recordBytes check exhausted (bytes.length + 1 - position) [] bytes position

--- Writing

variable (written : List UInt8 → List UInt8)

def fieldBytes (field : Field) : List UInt8 := written field.1 ++ written field.2

def mapBytes (fields : List Field) : List UInt8 := fields.flatMap (fieldBytes written) ++ written []

/- Keys and values are some that can be read back. -/
def Fits (fits : List UInt8 → Prop) (fields : List Field) : Prop :=
  ∀ field ∈ fields, fits field.1 ∧ fits field.2

variable (check : List (List UInt8) → List UInt8 → Except ε Unit)

/- No key is empty, and each passes the check. -/
def Passes : List Field → List Field → Prop
  | _, [] => True
  | fields, field :: rest =>
    field.1 ≠ [] ∧ check (fields.map Prod.fst) field.1 = .ok () ∧ Passes (fields ++ [field]) rest

variable {written check}

theorem Passes.keys_ne_nil {fields rest : List Field} (hPasses : Passes check fields rest) :
    ∀ field ∈ rest, field.1 ≠ [] := by
  induction rest generalizing fields with
  | nil =>
    intro field hMem
    cases hMem
  | cons first rest ih =>
    intro field hMem
    rcases List.mem_cons.mp hMem with rfl | hMem
    · exact hPasses.1
    · exact ih hPasses.2.2 field hMem

--- What Reading Accepts

section

variable {recordBytes : Reader ε (List UInt8)} {exhausted : ε} {fits : List UInt8 → Prop}

section

variable (written : List UInt8 → List UInt8)
  (check : List (List UInt8) → List UInt8 → Except ε Unit) (fits : List UInt8 → Prop)
  (fields : List Field)

/- The records that may follow those read before. -/
def FieldsLayout : Layout (List Field) :=
  fun found bytes => ∃ rest,
      found = fields ++ rest ∧ Fits fits rest ∧
        Passes check fields rest ∧
        bytes = mapBytes written rest

/- What follows a key: nothing behind an empty one. -/
def AfterKey (key : List UInt8) : Layout (List Field) :=
  fun found bytes => (key = [] ∧ found = fields ∧ bytes = []) ∨
      (key ≠ [] ∧ check (fields.map Prod.fst) key = .ok () ∧ ∃ value tail,
        fits value ∧ FieldsLayout written check fits (fields ++ [(key, value)]) found tail ∧
          bytes = written value ++ tail)

end

variable {fields : List Field} {bytes : List UInt8}

/- A key and what follows it are the records from there on. -/
theorem andThen_afterKey_iff (hEmpty : fits []) {found : List Field} :
    Layout.andThen (fun key piece => fits key ∧ piece = written key)
      (AfterKey written check fits fields) found bytes ↔
    FieldsLayout written check fits fields found bytes := by
  constructor
  · rintro ⟨key, _, tail, rfl, ⟨hFits, rfl⟩, hAfter⟩
    rcases hAfter with ⟨rfl, rfl, rfl⟩ |
      ⟨hKey, hCheck, value, _, hValue, ⟨rest, rfl, hRest, hPasses, rfl⟩, rfl⟩
    · refine ⟨[], (List.append_nil _).symm, ?_, trivial, ?_⟩
      · intro field hMem
        cases hMem
      · rw [List.append_nil]
        rfl
    · refine ⟨(key, value) :: rest, ?_, ?_, ⟨hKey, hCheck, hPasses⟩, ?_⟩
      · rw [List.append_assoc]
        rfl
      · exact List.forall_mem_cons.mpr ⟨⟨hFits, hValue⟩, hRest⟩
      · unfold mapBytes fieldBytes
        rw [List.flatMap_cons]
        simp only [List.append_assoc]
  · rintro ⟨rest, rfl, hFits, hPasses, rfl⟩
    cases rest with
    | nil =>
      refine ⟨[], written [], [], ?_, ⟨hEmpty, rfl⟩, .inl ⟨rfl, List.append_nil _, rfl⟩⟩
      rw [List.append_nil]
      rfl
    | cons field rest =>
      rcases field with ⟨key, value⟩
      have hAll := List.forall_mem_cons.mp hFits
      refine ⟨key, written key, written value ++ mapBytes written rest, ?_, ⟨hAll.1.1, rfl⟩,
        .inr
          ⟨hPasses.1, hPasses.2.1, value, _, hAll.1.2, ⟨rest, ?_, hAll.2, hPasses.2.2, rfl⟩, rfl⟩⟩
      · unfold mapBytes fieldBytes
        rw [List.flatMap_cons]
        simp only [List.append_assoc]
      · rw [List.append_assoc]
        rfl

variable {start : Nat}

section

variable (hReads : ReadsAs recordBytes (fun value bytes => fits value ∧ bytes = written value))
include hReads

/- What is read behind a key, when the rest is read. -/
theorem readsAt_afterKey {fuel : Nat} (hStart : start ≤ bytes.length) {key : List UInt8}
    (hRest : ∀ value stop,
          start ≤ stop → stop ≤ bytes.length →
            ReadsAt (readFields recordBytes check exhausted fuel (fields ++ [(key, value)]))
              (FieldsLayout written check fits (fields ++ [(key, value)])) bytes stop) :
    ReadsAt
      (if key = [] then pure fields
      else do
        Reader.lift (check (fields.map Prod.fst) key)
        let value ← recordBytes
        readFields recordBytes check exhausted fuel (fields ++ [(key, value)]))
      (AfterKey written check fits fields key) bytes start := by
  by_cases hKey : key = []
  · rw [if_pos hKey]
    apply ((ReadsAs.pure fields).readsAt hStart).congr
    intro found tail
    unfold AfterKey
    simp only [hKey, true_and, ne_eq, not_true_eq_false, false_and, or_false]
  · rw [if_neg hKey]
    have hValue (stop : Nat) (hFrom : start ≤ stop) (hStop : stop ≤ bytes.length) :=
      (hReads.readsAt hStop).bind
        fun value piece _ hPrefix =>
          hRest value (stop + piece.length) (hFrom.trans (Nat.le_add_right _ _))
            (add_length_le_of_isPrefixOf_drop hStop hPrefix)
    apply
      (((ReadsAs.lift _).readsAt hStart).bind fun _ piece _ hPrefix => hValue (start + piece.length)
        (Nat.le_add_right _ _) (add_length_le_of_isPrefixOf_drop hStart hPrefix)).congr
    intro found tail
    constructor
    · rintro ⟨_, _, _, rfl, ⟨hCheck, rfl⟩, value, _, rest, rfl, ⟨hFits, rfl⟩, hLayout⟩
      exact .inr ⟨hKey, hCheck, value, rest, hFits, hLayout, rfl⟩
    · rintro (⟨hNil, -⟩ | ⟨-, hCheck, value, rest, hFits, hLayout, rfl⟩)
      · exact absurd hNil hKey
      · exact ⟨(), [], _, rfl, ⟨hCheck, rfl⟩, value, _, rest, rfl, ⟨hFits, rfl⟩, hLayout⟩

/-
  With fuel for the bytes left, reading takes exactly the records that fit and pass.  By induction
  on the fuel: a key takes at least one byte.
-/
theorem readsAt_readFields (hWritten : ∀ value, written value ≠ []) (hEmpty : fits []) {fuel : Nat}
    (hStart : start ≤ bytes.length) (hFuel : bytes.length + 1 - start ≤ fuel)
    (fields : List Field) :
    ReadsAt (readFields recordBytes check exhausted fuel fields)
      (FieldsLayout written check fits fields) bytes start := by
  induction fuel generalizing start fields with
  | zero => omega
  | succ fuel ih =>
    apply ((hReads.readsAt hStart).bind fun key piece hKey hPrefix => readsAt_afterKey hReads
      (add_length_le_of_isPrefixOf_drop hStart hPrefix) fun value stop hFrom hStop => ?_).congr
    · intro found bytes
      exact andThen_afterKey_iff hEmpty
    · have hSome : 0 < piece.length := by
        rw [hKey.2]
        exact List.length_pos_iff.mpr (hWritten key)
      exact ih hStop (by omega) _

theorem readsAs_readMap (hWritten : ∀ value, written value ≠ []) (hEmpty : fits []) :
    ReadsAs (readMap recordBytes check exhausted)
      (fun fields bytes =>
        Fits fits fields ∧ Passes check [] fields ∧ bytes = mapBytes written fields) := by
  intro bytes start value stop hStart
  have hRead :
      ReadsAt (readFields recordBytes check exhausted (bytes.length + 1 - start) [])
        (FieldsLayout written check fits []) bytes start :=
    readsAt_readFields hReads hWritten hEmpty hStart (Nat.le_refl _) []
  apply (hRead.congr ?_) value stop
  intro found piece
  constructor
  · rintro ⟨rest, rfl, hLayout⟩
    exact hLayout
  · intro hLayout
    exact ⟨found, rfl, hLayout⟩

end

theorem mapBytes_nil_append (tail : List UInt8) :
    mapBytes written [] ++ tail = written [] ++ tail := rfl

theorem mapBytes_cons_append (field : Field) (fields : List Field) (tail : List UInt8) :
    mapBytes written (field :: fields) ++ tail =
      written field.1 ++ (written field.2 ++ (mapBytes written fields ++ tail)) := by
  unfold mapBytes fieldBytes
  rw [List.flatMap_cons]
  simp only [List.append_assoc]

section

variable (hReads : ReadsAs recordBytes (fun value bytes => fits value ∧ bytes = written value))
include hReads

/-
  The bytes of a map are not those of another.  By induction over the records: the empty key is no
  record's.
-/
theorem mapBytes_unique (hEmpty : fits []) {fields' : List Field} {tail tail' : List UInt8}
    (hFits : Fits fits fields) (hFits' : Fits fits fields') (hKeys : ∀ field ∈ fields, field.1 ≠ [])
    (hKeys' : ∀ field ∈ fields', field.1 ≠ [])
    (hSame : mapBytes written fields ++ tail = mapBytes written fields' ++ tail') :
    fields = fields' := by
  have hUnique {value value' rest rest' : List UInt8} (hValue : fits value) (hValue' : fits value')
      (hBytes : written value ++ rest = written value' ++ rest') :
      value = value' ∧ rest = rest' := by
    have hOne := hReads.unique ⟨hValue, rfl⟩ ⟨hValue', rfl⟩ hBytes
    rw [hOne.1, List.append_cancel_left_eq] at hBytes
    exact ⟨hOne.1, hBytes⟩
  induction fields generalizing fields' with
  | nil =>
    cases fields' with
    | nil => rfl
    | cons field' fields' =>
      have hAll' := List.forall_mem_cons.mp hFits'
      rw [mapBytes_nil_append, mapBytes_cons_append] at hSame
      have hKey := (hUnique hEmpty hAll'.1.1 hSame).1
      exact absurd hKey.symm (List.forall_mem_cons.mp hKeys').1
  | cons field fields ih =>
    have hAll := List.forall_mem_cons.mp hFits
    have hNonempty := List.forall_mem_cons.mp hKeys
    cases fields' with
    | nil =>
      rw [mapBytes_nil_append, mapBytes_cons_append] at hSame
      have hKey := (hUnique hAll.1.1 hEmpty hSame).1
      exact absurd hKey hNonempty.1
    | cons field' fields' =>
      have hAll' := List.forall_mem_cons.mp hFits'
      have hNonempty' := List.forall_mem_cons.mp hKeys'
      rw [mapBytes_cons_append, mapBytes_cons_append] at hSame
      rcases hUnique hAll.1.1 hAll'.1.1 hSame with ⟨hKey, hBytes⟩
      rcases hUnique hAll.1.2 hAll'.1.2 hBytes with ⟨hValue, hRest⟩
      rw [ih hAll.2 hAll'.2 hNonempty.2 hNonempty'.2 hRest, Prod.ext hKey hValue]

/-
  Where the bytes of a map stand, reading it finds its records or fails.
-/
theorem readMap_of_written (hWritten : ∀ value, written value ≠ []) (hEmpty : fits [])
    {found : List Field} {stop : Nat} (hStart : start ≤ bytes.length) (hFits : Fits fits fields)
    (hKeys : ∀ field ∈ fields, field.1 ≠ [])
    (hPrefix : mapBytes written fields <+: bytes.drop start)
    (hRead : readMap recordBytes check exhausted bytes start = .ok (found, stop)) :
    found = fields ∧ stop = start + (mapBytes written fields).length := by
  have hMap : ReadsAs (readMap recordBytes check exhausted) _ :=
    readsAs_readMap hReads hWritten hEmpty
  rcases (hMap _ _ _ _ hStart).mp hRead with ⟨_, ⟨tail, hTail⟩, ⟨hFound, hPasses, rfl⟩, hStop⟩
  rcases hPrefix with ⟨tail', hTail'⟩
  have hSame : found = fields :=
    mapBytes_unique hReads hEmpty hFound hFits hPasses.keys_ne_nil hKeys (hTail.trans hTail'.symm)
  rw [hSame] at hStop
  exact ⟨hSame, hStop⟩

end

end

end RecordMap
