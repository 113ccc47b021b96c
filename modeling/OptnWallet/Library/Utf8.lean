import Mathlib.Algebra.Order.Ring.Nat

/-
  The bytes that characters are encoded in, and texts that are cut at a number of bytes, which is
  only defined between two characters.

  Main declarations:
    * `Utf8.encodeChar_cases`
    * `Utf8.splitBytes` and `splitBytes_eq_some_iff`
    * `Utf8.boundary_of_ascii`
    * `Utf8.slice` and `isSome_slice`
    * `Utf8.lossy`
-/

namespace Utf8

variable (c : Char)

/- A character of seven bits is one byte of its own, and any other one starts with a byte that is no
   such character. -/
theorem encodeChar_cases :
    (c.toNat < 128 ∧ String.utf8EncodeChar c = [UInt8.ofNat c.toNat]) ∨
    (128 ≤ c.toNat ∧ ∃ first rest,
      192 ≤ first.toNat ∧ String.utf8EncodeChar c = first :: rest) := by
  by_cases hLow : c.toNat ≤ 127
  · left
    refine ⟨by omega, ?_⟩
    unfold String.utf8EncodeChar
    exact if_pos hLow
  · right
    refine ⟨by omega, ?_⟩
    have hFirst :
        ∃ value rest,
        192 ≤ value ∧ value < 256 ∧ String.utf8EncodeChar c = UInt8.ofNat value :: rest := by
      change ¬ c.val.toNat ≤ 127 at hLow
      unfold String.utf8EncodeChar
      dsimp only
      rw [if_neg hLow]
      split
      · exact ⟨_, _, Nat.le_add_left _ _, by omega, rfl⟩
      · split
        · exact ⟨_, _, by omega, by omega, rfl⟩
        · exact ⟨_, _, by omega, by omega, rfl⟩
    rcases hFirst with ⟨value, rest, hHigh, hLt, hEncode⟩
    refine ⟨UInt8.ofNat value, rest, ?_, hEncode⟩
    rw [UInt8.toNat_ofNat_of_lt' hLt]
    exact hHigh

theorem length_encodeChar_pos : 0 < (String.utf8EncodeChar c).length :=
  List.length_pos_iff.mpr String.utf8EncodeChar_ne_nil

/- No byte of any other character is of seven bits. -/
theorem encodeChar_high {c : Char} (hHigh : 128 ≤ c.toNat) :
    ∀ byte ∈ String.utf8EncodeChar c, 128 ≤ byte.toNat := by
  have hByte : ∀ value, 128 ≤ value → value < 256 → 128 ≤ (UInt8.ofNat value).toNat := by
    intro value hValue hLt
    rw [UInt8.toNat_ofNat_of_lt' hLt]
    exact hValue
  have hNot : ¬ c.val.toNat ≤ 127 := by
    change ¬ c.toNat ≤ 127
    omega
  unfold String.utf8EncodeChar
  dsimp only
  rw [if_neg hNot]
  split
  · simp only [List.forall_mem_cons, List.not_mem_nil, false_imp_iff, implies_true, and_true]
    constructor
    · exact hByte _ (by omega) (by omega)
    · exact hByte _ (by omega) (by omega)
  · split
    · simp only [List.forall_mem_cons, List.not_mem_nil, false_imp_iff, implies_true, and_true]
      refine ⟨?_, ?_, ?_⟩
      · exact hByte _ (by omega) (by omega)
      · exact hByte _ (by omega) (by omega)
      · exact hByte _ (by omega) (by omega)
    · simp only [List.forall_mem_cons, List.not_mem_nil, false_imp_iff, implies_true, and_true]
      refine ⟨?_, ?_, ?_, ?_⟩
      · exact hByte _ (by omega) (by omega)
      · exact hByte _ (by omega) (by omega)
      · exact hByte _ (by omega) (by omega)
      · exact hByte _ (by omega) (by omega)

--- Cuts

def encode (text : List Char) : List UInt8 := text.flatMap String.utf8EncodeChar

def size (text : List Char) : Nat := (encode text).length

theorem encode_append (front back : List Char) :
    encode (front ++ back) = encode front ++ encode back := List.flatMap_append

theorem encode_inj {first second : List Char} (hSame : encode first = encode second) :
    first = second := by
  have hBytes : (String.ofList first).toByteArray = (String.ofList second).toByteArray :=
    congrArg List.toByteArray hSame
  have hText := String.toByteArray_inj.mp hBytes
  rw [← String.toList_ofList (l := first), hText, String.toList_ofList]

/- The bytes of what is behind. -/
theorem encode_getElem? (front back : List Char) (n : Nat) :
    (encode (front ++ back))[size front + n]? = (encode back)[n]? := by
  have hStart : (encode front).length = size front := rfl
  rw [encode_append, List.getElem?_append_right (by omega), hStart, Nat.add_sub_cancel_left]

@[simp]
theorem size_nil : size [] = 0 := rfl

@[simp]
theorem size_cons (text : List Char) :
    size (c :: text) = (String.utf8EncodeChar c).length + size text := by
  unfold size encode
  rw [List.flatMap_cons, List.length_append]

@[simp]
theorem size_append (front back : List Char) : size (front ++ back) = size front + size back := by
  unfold size
  rw [encode_append, List.length_append]

/- What is in front of a number of bytes and what is behind it, where it is between two characters.
   -/
def splitBytes : Nat → List Char → Option (List Char × List Char)
  | 0, text => some ([], text)
  | _ + 1, [] => none
  | n + 1, c :: text =>
    if (String.utf8EncodeChar c).length ≤ n + 1 then
      (splitBytes (n + 1 - (String.utf8EncodeChar c).length) text).map (Prod.map (List.cons c) id)
    else none

/- By recursion over the text. -/
theorem splitBytes_eq_some_iff :
    ∀ (n : Nat) (text : List Char) (parts : List Char × List Char),
    splitBytes n text = some parts ↔ text = parts.1 ++ parts.2 ∧ size parts.1 = n
  | 0, text, parts => by
      rw [splitBytes]
      constructor
      · intro hParts
        cases hParts
        exact ⟨rfl, rfl⟩
      · rintro ⟨hText, hSize⟩
        cases hFront : parts.1 with
        | nil => rw [hText, hFront, List.nil_append, ← hFront]
        | cons c rest =>
          rw [hFront, size_cons] at hSize
          have hPos := length_encodeChar_pos c
          omega
  | n + 1, [], parts => by
      rw [splitBytes]
      constructor
      · intro hParts
        cases hParts
      · rintro ⟨hText, hSize⟩
        rw [(List.append_eq_nil_iff.mp hText.symm).1] at hSize
        cases hSize
  | n + 1, c :: text, parts => by
      have hPos := length_encodeChar_pos c
      rw [splitBytes]
      constructor
      · intro hParts
        split at hParts
        · rcases Option.map_eq_some_iff.mp hParts with ⟨rest, hRest, rfl⟩
          rcases (splitBytes_eq_some_iff _ text rest).mp hRest with ⟨hText, hSize⟩
          constructor
          · rw [hText]
            rfl
          · change size (c :: rest.1) = n + 1
            rw [size_cons]
            omega
        · cases hParts
      · rintro ⟨hText, hSize⟩
        rcases parts with ⟨front, back⟩
        cases front with
        | nil => cases hSize
        | cons d front =>
          rcases List.cons.inj hText with ⟨rfl, hRest⟩
          rw [size_cons] at hSize
          rw [if_pos (by omega),
            (splitBytes_eq_some_iff _ text (front, back)).mpr ⟨hRest, by dsimp only; omega⟩]
          rfl

/- `str::is_char_boundary` -/
def isBoundary (n : Nat) (text : List Char) : Bool := (splitBytes n text).isSome

variable {n : Nat} {text : List Char}

theorem isBoundary_iff :
    isBoundary n text = true ↔ ∃ front back, text = front ++ back ∧ size front = n := by
  unfold isBoundary
  rw [Option.isSome_iff_exists]
  constructor
  · rintro ⟨parts, hParts⟩
    exact ⟨parts.1, parts.2, (splitBytes_eq_some_iff n text parts).mp hParts⟩
  · rintro ⟨front, back, hText⟩
    exact ⟨(front, back), (splitBytes_eq_some_iff n text (front, back)).mpr hText⟩

theorem isBoundary_cons (text : List Char) (n : Nat) :
    isBoundary (n + 1) (c :: text) = (decide ((String.utf8EncodeChar c).length ≤ n + 1) &&
        isBoundary (n + 1 - (String.utf8EncodeChar c).length) text) := by
  unfold isBoundary
  rw [splitBytes]
  split
  · rename_i hLe
    rw [Option.isSome_map, decide_eq_true hLe, Bool.true_and]
  · rename_i hLong
    rw [decide_eq_false hLong]
    rfl

/- By induction over what is in front. -/
theorem isBoundary_append (front back : List Char) (n : Nat) :
    isBoundary (size front + n) (front ++ back) = isBoundary n back := by
  induction front with
  | nil =>
    rw [size_nil, Nat.zero_add]
    rfl
  | cons c front ih =>
    have hPos := length_encodeChar_pos c
    have hPlace :
        size (c :: front) + n = (String.utf8EncodeChar c).length - 1 + (size front + n) + 1 := by
      rw [size_cons]
      omega
    have hBehind :
        (String.utf8EncodeChar c).length - 1 + (size front + n) + 1 -
            (String.utf8EncodeChar c).length = size front + n := by
      omega
    rw [hPlace, List.cons_append, isBoundary_cons, hBehind,
      decide_eq_true (by omega), Bool.true_and]
    exact ih

/- A byte of seven bits is a character.  By induction over the text. -/
theorem char_of_ascii {byte : UInt8} (hByte : (encode text)[n]? = some byte)
    (hAscii : byte.toNat < 128) :
    ∃ front back, text = front ++ Char.ofNat byte.toNat :: back ∧ size front = n := by
  induction text generalizing n with
  | nil => cases hByte
  | cons c text ih =>
    unfold encode at hByte
    rw [List.flatMap_cons] at hByte
    by_cases hHere : n < (String.utf8EncodeChar c).length
    · rw [List.getElem?_append_left hHere] at hByte
      rcases encodeChar_cases c with ⟨hLow, hEncode⟩ | ⟨hHigh, -⟩
      · rw [hEncode] at hHere hByte
        have hFirst : n = 0 := by
          rw [List.length_singleton] at hHere
          omega
        subst hFirst
        cases hByte
        refine ⟨[], text, ?_, rfl⟩
        rw [UInt8.toNat_ofNat_of_lt' (lt_trans hLow (by decide)), Char.ofNat_toNat]
        rfl
      · have hByteHigh := encodeChar_high hHigh byte (List.mem_of_getElem? hByte)
        omega
    · rw [List.getElem?_append_right (by omega)] at hByte
      rcases ih hByte with ⟨front, back, rfl, hSize⟩
      refine ⟨c :: front, back, rfl, ?_⟩
      rw [size_cons, hSize]
      omega

/- On both sides of a byte of seven bits a text can be cut. -/
theorem boundary_of_ascii {byte : UInt8} (hByte : (encode text)[n]? = some byte)
    (hAscii : byte.toNat < 128) : isBoundary n text = true ∧ isBoundary (n + 1) text = true := by
  rcases char_of_ascii hByte hAscii with ⟨front, back, rfl, hSize⟩
  have hOne : size [Char.ofNat byte.toNat] = 1 := by
    have hAll : ∀ value < 128, size [Char.ofNat value] = 1 := by decide +kernel
    exact hAll byte.toNat hAscii
  constructor
  · exact isBoundary_iff.mpr ⟨front, _, rfl, hSize⟩
  · refine isBoundary_iff.mpr ⟨front ++ [Char.ofNat byte.toNat], back, ?_, ?_⟩
    · rw [List.append_assoc, List.singleton_append]
    · rw [size_append, hSize, hOne]

--- Slices

/- What is in front of a place. -/
def sliceTo (finish : Nat) (text : List Char) : Option (List Char) :=
  (splitBytes finish text).map Prod.fst

/- What is behind a place. -/
def sliceFrom (start : Nat) (text : List Char) : Option (List Char) :=
  (splitBytes start text).map Prod.snd

/- `str::get` -/
def slice (start finish : Nat) (text : List Char) : Option (List Char) :=
  if start ≤ finish then (sliceTo finish text).bind (sliceFrom start)
  else none

theorem isSome_sliceTo (finish : Nat) (text : List Char) :
    (sliceTo finish text).isSome = isBoundary finish text := by
  unfold sliceTo isBoundary
  rw [Option.isSome_map]

theorem isSome_sliceFrom (start : Nat) (text : List Char) :
    (sliceFrom start text).isSome = isBoundary start text := by
  unfold sliceFrom isBoundary
  rw [Option.isSome_map]

variable {finish : Nat}

theorem sliceTo_eq_some_iff {front : List Char} :
    sliceTo finish text = some front ↔ ∃ back, text = front ++ back ∧ size front = finish := by
  unfold sliceTo
  rw [Option.map_eq_some_iff]
  constructor
  · rintro ⟨parts, hParts, rfl⟩
    exact ⟨parts.2, (splitBytes_eq_some_iff finish text parts).mp hParts⟩
  · rintro ⟨back, hText⟩
    exact ⟨(front, back), (splitBytes_eq_some_iff finish text (front, back)).mpr hText, rfl⟩

variable {start : Nat}

theorem sliceFrom_eq_some_iff {back : List Char} :
    sliceFrom start text = some back ↔ ∃ front, text = front ++ back ∧ size front = start := by
  unfold sliceFrom
  rw [Option.map_eq_some_iff]
  constructor
  · rintro ⟨parts, hParts, rfl⟩
    exact ⟨parts.1, (splitBytes_eq_some_iff start text parts).mp hParts⟩
  · rintro ⟨front, hText⟩
    exact ⟨(front, back), (splitBytes_eq_some_iff start text (front, back)).mpr hText, rfl⟩

theorem slice_eq_some_iff {middle : List Char} :
    slice start finish text = some middle ↔
    ∃ front back,
      text = front ++ middle ++ back ∧ size front = start ∧ start + size middle = finish := by
  unfold slice
  constructor
  · intro hSlice
    split at hSlice
    · rcases Option.bind_eq_some_iff.mp hSlice with ⟨whole, hWhole, hMiddle⟩
      rcases sliceTo_eq_some_iff.mp hWhole with ⟨back, hText, hSize⟩
      rcases sliceFrom_eq_some_iff.mp hMiddle with ⟨front, hFront, hStart⟩
      rw [hFront, size_append, hStart] at hSize
      exact ⟨front, back, hFront ▸ hText, hStart, hSize⟩
    · cases hSlice
  · rintro ⟨front, back, hText, hStart, hFinish⟩
    rw [if_pos (by omega), Option.bind_eq_some_iff]
    refine ⟨front ++ middle, sliceTo_eq_some_iff.mpr ⟨back, hText, ?_⟩,
      sliceFrom_eq_some_iff.mpr ⟨front, rfl, hStart⟩⟩
    rw [size_append, hStart, hFinish]

/- Behind a place where a text can be cut, a slice only needs another one. -/
theorem isSome_slice (hStart : isBoundary start text = true) (hLe : start ≤ finish) :
    (slice start finish text).isSome = isBoundary finish text := by
  rw [Bool.eq_iff_iff, Option.isSome_iff_exists]
  constructor
  · rintro ⟨middle, hMiddle⟩
    rcases slice_eq_some_iff.mp hMiddle with ⟨front, back, hText, hFront, hSize⟩
    refine isBoundary_iff.mpr ⟨front ++ middle, back, hText, ?_⟩
    rw [size_append, hFront, hSize]
  · intro hFinish
    rcases isBoundary_iff.mp hStart with ⟨front, rest, hText, hFront⟩
    rcases isBoundary_iff.mp hFinish with ⟨whole, back, hWhole, hSize⟩
    rcases List.append_eq_append_iff.mp (hText.symm.trans hWhole) with ⟨middle, rfl, hRest⟩ |
      ⟨extra, rfl, hBack⟩
    · rw [size_append, hFront] at hSize
      exact ⟨middle, slice_eq_some_iff.mpr ⟨front, back, hWhole, hFront, hSize⟩⟩
    · rw [size_append, hSize] at hFront
      refine ⟨[], slice_eq_some_iff.mpr ⟨whole, back, ?_, ?_, ?_⟩⟩
      · rw [List.append_nil]
        exact hWhole
      · omega
      · rw [size_nil]
        omega

/- Bytes of seven bits in a row are cut out of a text. -/
theorem slice_of_ascii {before run after : List UInt8}
    (hBytes : encode text = before ++ run ++ after) (hRun : run ≠ [])
    (hAscii : ∀ byte ∈ run, byte.toNat < 128) :
    ∃ front middle back,
    text = front ++ middle ++ back ∧ size front = before.length ∧ encode middle = run := by
  have hPos := List.length_pos_iff.mpr hRun
  have hByte :
      ∀ i < run.length,
      ∃ byte, (encode text)[before.length + i]? = some byte ∧ byte.toNat < 128 := by
    intro i hLt
    have hHere := List.getElem_mem hLt
    refine ⟨run[i], ?_, hAscii _ hHere⟩
    rw [hBytes, List.append_assoc, List.getElem?_append_right (by omega), Nat.add_sub_cancel_left,
      List.getElem?_append_left hLt, List.getElem?_eq_getElem hLt]
  rcases hByte 0 hPos with ⟨first, hFirst, hFirstAscii⟩
  rcases hByte (run.length - 1) (by omega) with ⟨last, hLast, hLastAscii⟩
  have hStart := (boundary_of_ascii hFirst hFirstAscii).1
  have hFinish := (boundary_of_ascii hLast hLastAscii).2
  rw [Nat.add_zero] at hStart
  have hPlace : before.length + (run.length - 1) + 1 = before.length + run.length := by omega
  rw [hPlace] at hFinish
  rw [← isSome_slice hStart (Nat.le_add_right _ _), Option.isSome_iff_exists] at hFinish
  rcases hFinish with ⟨middle, hMiddle⟩
  rcases slice_eq_some_iff.mp hMiddle with ⟨front, back, hText, hFront, hSize⟩
  refine ⟨front, middle, back, hText, hFront, ?_⟩
  have hParts : encode front ++ (encode middle ++ encode back) = before ++ (run ++ after) := by
    rw [hText, List.append_assoc, encode_append, encode_append, List.append_assoc] at hBytes
    exact hBytes
  have hRest := (List.append_inj hParts hFront).2
  apply (List.append_inj hRest ?_).1
  unfold size at hSize
  omega

/- A text of such bytes can be cut anywhere. -/
theorem boundary_of_all_ascii (hAscii : ∀ byte ∈ encode text, byte.toNat < 128)
    (hLe : n ≤ size text) : isBoundary n text = true := by
  rcases Nat.lt_or_ge n (size text) with hLt | hGe
  · exact (boundary_of_ascii (List.getElem?_eq_getElem hLt) (hAscii _ (List.getElem_mem hLt))).1
  · refine isBoundary_iff.mpr ⟨text, [], ?_, ?_⟩
    · rw [List.append_nil]
    · omega

--- Lossy Texts

def replacement : Char := Char.ofNat 0xfffd

def isContinuation (byte : UInt8) : Bool := byte &&& 0xc0 = 0x80

/- The second byte of a sequence of three or of four. -/
def secondOfThree (first second : UInt8) : Bool :=
  if first = 0xe0 then 0xa0 ≤ second && second ≤ 0xbf
  else if first = 0xed then 0x80 ≤ second && second ≤ 0x9f
  else isContinuation second

def secondOfFour (first second : UInt8) : Bool :=
  if first = 0xf0 then 0x90 ≤ second && second ≤ 0xbf
  else if first = 0xf4 then 0x80 ≤ second && second ≤ 0x8f
  else isContinuation second

def low6 (byte : UInt8) : Nat := byte.toNat % 64

/- What is decoded of the longest piece at the front, and what is behind it. -/
def lossyStep (first : UInt8) (rest : List UInt8) : Char × List UInt8 :=
  if first < 0x80 then (Char.ofNat first.toNat, rest)
  else if 0xc2 ≤ first ∧ first ≤ 0xdf then
    match rest with
    | b :: rest' =>
      if isContinuation b then (Char.ofNat (first.toNat % 32 * 64 + low6 b), rest')
      else (replacement, rest)
    | [] => (replacement, [])
  else if 0xe0 ≤ first ∧ first ≤ 0xef then
    match rest with
    | b :: c :: rest' =>
      if secondOfThree first b then
        if isContinuation c then
          (Char.ofNat (first.toNat % 16 * 4096 + low6 b * 64 + low6 c), rest')
        else (replacement, c :: rest')
      else (replacement, rest)
    | [b] =>
      if secondOfThree first b then (replacement, [])
      else (replacement, rest)
    | [] => (replacement, [])
  else if 0xf0 ≤ first ∧ first ≤ 0xf4 then
    match rest with
    | b :: c :: d :: rest' =>
      if secondOfFour first b then
        if isContinuation c then
          if isContinuation d then
            (Char.ofNat (first.toNat % 8 * 262144 + low6 b * 4096 + low6 c * 64 + low6 d), rest')
          else (replacement, d :: rest')
        else (replacement, c :: d :: rest')
      else (replacement, rest)
    | [b, c] =>
      if secondOfFour first b then
        if isContinuation c then (replacement, [])
        else (replacement, [c])
      else (replacement, rest)
    | [b] =>
      if secondOfFour first b then (replacement, [])
      else (replacement, rest)
    | [] => (replacement, [])
  else (replacement, rest)

def lossyLoop : Nat → List UInt8 → List Char
  | 0, _ => []
  | _, [] => []
  | fuel + 1, first :: rest => (lossyStep first rest).1 :: lossyLoop fuel (lossyStep first rest).2

/- `String::from_utf8_lossy`: each piece that is no character is replaced by one. -/
def lossy (bytes : List UInt8) : List Char := lossyLoop bytes.length bytes

end Utf8
