import Mathlib.Algebra.Order.Ring.Nat

/-
  Fields of messages on the wire: a tag of one byte, and a number in groups of seven bits or a
  string of bytes behind its length.

  Main declarations:
    * `Protobuf.varint` and `Protobuf.takeVarint`
    * `Protobuf.takeUintField_append`
    * `Protobuf.takeBytesField_append`
-/

--- Numbers

namespace Protobuf

/- The lowest group first.  Every byte but the last has its highest bit set. -/
def groups : Nat → Nat → List UInt8
  | 0, n => [UInt8.ofNat n]
  | fuel + 1, n =>
    if n < 128 then [UInt8.ofNat n]
    else UInt8.ofNat (n % 128 + 128) :: groups fuel (n / 128)

def varint (n : Nat) : List UInt8 := groups n n

def takeVarint : List UInt8 → Option (Nat × List UInt8)
  | [] => none
  | byte :: rest =>
    if byte.toNat < 128 then some (byte.toNat, rest)
    else (takeVarint rest).map (fun read => (byte.toNat - 128 + 128 * read.1, read.2))

/- By induction over the fuel, which is as long as the number. -/
theorem takeVarint_groups {fuel n : Nat} (hFuel : n ≤ fuel) (rest : List UInt8) :
    takeVarint (groups fuel n ++ rest) = some (n, rest) := by
  induction fuel generalizing n with
  | zero =>
    have hZero : n = 0 := Nat.le_zero.mp hFuel
    subst hZero
    rfl
  | succ fuel ih =>
    unfold groups
    split
    · rename_i hLt
      have hByte : (UInt8.ofNat n).toNat = n := UInt8.toNat_ofNat_of_lt' (lt_trans hLt (by decide))
      rw [List.singleton_append, takeVarint, hByte, if_pos hLt]
    · rename_i hGe
      have hByte : (UInt8.ofNat (n % 128 + 128)).toNat = n % 128 + 128 :=
        UInt8.toNat_ofNat_of_lt' (by
          have hMod := Nat.mod_lt n (by decide : 0 < 128)
          change n % 128 + 128 < 256
          omega)
      rw [List.cons_append, takeVarint, hByte, if_neg (by omega), ih (by omega), Option.map_some]
      dsimp only
      rw [Nat.add_sub_cancel, Nat.mod_add_div]

theorem takeVarint_varint (n : Nat) (rest : List UInt8) :
    takeVarint (varint n ++ rest) = some (n, rest) := takeVarint_groups le_rfl rest

--- Fields

def uintField (tag : UInt8) (n : Nat) : List UInt8 := tag :: varint n

def bytesField (tag : UInt8) (bytes : List UInt8) : List UInt8 :=
  tag :: (varint bytes.length ++ bytes)

variable (tag : UInt8)

theorem bytesField_ne_nil (bytes : List UInt8) : bytesField tag bytes ≠ [] := List.cons_ne_nil _ _

def takeTag (tag : UInt8) : List UInt8 → Option (List UInt8)
  | [] => none
  | byte :: rest => if byte = tag then some rest else none

def takeUintField (tag : UInt8) (input : List UInt8) : Option (Nat × List UInt8) := do
  let input ← takeTag tag input
  takeVarint input

def takeBytesField (tag : UInt8) (input : List UInt8) : Option (List UInt8 × List UInt8) := do
  let input ← takeTag tag input
  let (length, input) ← takeVarint input
  if input.length < length then none
  else some (input.take length, input.drop length)

theorem takeTag_cons (rest : List UInt8) : takeTag tag (tag :: rest) = some rest := if_pos rfl

@[simp]
theorem takeUintField_append (n : Nat) (rest : List UInt8) :
    takeUintField tag (uintField tag n ++ rest) = some (n, rest) := by
  unfold takeUintField uintField
  rw [List.cons_append, takeTag_cons]
  exact takeVarint_varint n rest

@[simp]
theorem takeBytesField_append (bytes rest : List UInt8) :
    takeBytesField tag (bytesField tag bytes ++ rest) = some (bytes, rest) := by
  unfold takeBytesField bytesField
  rw [List.cons_append, takeTag_cons, List.append_assoc]
  change
    (do
      let read ← takeVarint (varint bytes.length ++ _)
      _) = _
  rw [takeVarint_varint]
  change (if _ then _ else _) = _
  rw [if_neg (by rw [List.length_append]; omega), List.take_left, List.drop_left]

/- A field with another tag is not taken. -/
theorem takeBytesField_of_ne {tag other : UInt8} (hTag : other ≠ tag) (rest : List UInt8) :
    takeBytesField tag (other :: rest) = none := by
  have hNone : takeTag tag (other :: rest) = none := if_neg hTag
  unfold takeBytesField
  rw [hNone]
  rfl

--- Lengths

theorem length_le_of_takeVarint {input rest : List UInt8} {n : Nat}
    (hTake : takeVarint input = some (n, rest)) : rest.length ≤ input.length := by
  induction input generalizing n with
  | nil => cases hTake
  | cons byte input ih =>
    unfold takeVarint at hTake
    rw [List.length_cons]
    split at hTake
    · cases hTake
      omega
    · rcases Option.map_eq_some_iff.mp hTake with ⟨read, hRead, hSame⟩
      rw [Prod.mk.injEq] at hSame
      have hRest : takeVarint input = some (read.1, rest) := by rw [hRead, ← hSame.2]
      have hLe := ih hRest
      omega

/- A field and what follows it are parts of the input. -/
theorem length_le_of_takeBytesField {tag : UInt8} {input bytes rest : List UInt8}
    (hTake : takeBytesField tag input = some (bytes, rest)) :
    bytes.length ≤ input.length ∧ rest.length ≤ input.length := by
  unfold takeBytesField at hTake
  rcases Option.bind_eq_some_iff.mp hTake with ⟨tagged, hTag, hTake⟩
  rcases Option.bind_eq_some_iff.mp hTake with ⟨read, hRead, hTake⟩
  have hTagged : tagged.length ≤ input.length := by
    cases input with
    | nil => cases hTag
    | cons byte input =>
      unfold takeTag at hTag
      dsimp only at hTag
      by_cases hByte : byte = tag
      · rw [if_pos hByte] at hTag
        rw [← Option.some.inj hTag]
        exact Nat.le_succ _
      · rw [if_neg hByte] at hTag
        cases hTag
  have hVarint := @length_le_of_takeVarint tagged read.2 read.1 hRead
  dsimp only at hTake
  split at hTake
  · cases hTake
  · cases hTake
    rw [List.length_take, List.length_drop]
    omega

end Protobuf
