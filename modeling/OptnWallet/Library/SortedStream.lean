import Mathlib.Data.List.Sort
import Mathlib.Data.List.TakeWhile
import Mathlib.Data.Nat.Bitwise
import Mathlib.Tactic.Ring

/-
  Ascending streams: values against queries with an early end, values from their differences, and
  repetitions that are taken out.

  Differences travel in Golomb-Rice code: a quotient in unary and a remainder of a fixed width,
  one number after the other, with bits packed into bytes from the highest on.

  Main declarations:
    * `SortedStream.meets` and `SortedStream.meets_eq_true_iff`
    * `SortedStream.sums` and `SortedStream.sums_differences`
    * `GolombRice.word` and `GolombRice.stream`
    * `GolombRice.packBits` and `GolombRice.exists_unpack_packBits`
-/

--- Repetitions

namespace SortedStream

section Repetitions

variable {α : Type} [DecidableEq α]

/- By induction over what is left. -/
theorem eraseRepsLoop_sublist (as acc : List α) (a : α) :
    (List.eraseRepsBy.loop (· == ·) a as acc).Sublist (acc.reverse ++ a :: as) := by
  induction as generalizing a acc with
  | nil =>
    unfold List.eraseRepsBy.loop
    rw [List.reverse_cons]
  | cons next as ih =>
    unfold List.eraseRepsBy.loop
    cases hSame : a == next with
    | true =>
      apply (ih acc a).trans
      apply List.Sublist.append_left
      exact (List.sublist_cons_self next as).cons_cons a
    | false =>
      have hRest := ih (a :: acc) next
      rw [List.reverse_cons, List.append_assoc, List.singleton_append] at hRest
      exact hRest

theorem mem_eraseRepsLoop_of_mem {as acc : List α} {a b : α} (hMem : b ∈ acc ∨ b = a ∨ b ∈ as) :
    b ∈ List.eraseRepsBy.loop (· == ·) a as acc := by
  induction as generalizing a acc with
  | nil =>
    unfold List.eraseRepsBy.loop
    rw [List.mem_reverse, List.mem_cons]
    rcases hMem with hAcc | rfl | hNone
    · exact Or.inr hAcc
    · exact Or.inl rfl
    · cases hNone
  | cons next as ih =>
    unfold List.eraseRepsBy.loop
    cases hSame : a == next with
    | true =>
      apply ih
      rcases hMem with hAcc | rfl | hLater
      · exact Or.inl hAcc
      · exact Or.inr (Or.inl rfl)
      · rcases List.mem_cons.mp hLater with rfl | hLater
        · exact Or.inr (Or.inl (eq_of_beq hSame).symm)
        · exact Or.inr (Or.inr hLater)
    | false =>
      apply ih
      rcases hMem with hAcc | rfl | hLater
      · exact Or.inl (List.mem_cons_of_mem _ hAcc)
      · exact Or.inl List.mem_cons_self
      · exact Or.inr (List.mem_cons.mp hLater)

theorem eraseReps_sublist (as : List α) : as.eraseReps.Sublist as := by
  cases as with
  | nil => exact List.Sublist.refl _
  | cons a as => exact eraseRepsLoop_sublist as [] a

theorem mem_eraseReps {as : List α} {b : α} : b ∈ as.eraseReps ↔ b ∈ as := by
  constructor
  · exact fun hMem => (eraseReps_sublist as).subset hMem
  · intro hMem
    cases as with
    | nil => cases hMem
    | cons a as => exact mem_eraseRepsLoop_of_mem (Or.inr (List.mem_cons.mp hMem))

end Repetitions

--- Queries

section Queries

variable {α : Type} [LinearOrder α]

/- Whether a value is among the queries.  The queries that a value leaves behind are not looked at
   again. -/
def meets : List α → List α → Bool
  | _, [] => false
  | queries, value :: values =>
    match queries.dropWhile (fun query => query < value) with
    | [] => false
    | query :: queries =>
      if query = value then true
      else meets (query :: queries) values

/- What is dropped is below the bound. -/
theorem mem_dropWhile_of_le {queries : List α} {value query : α} (hMem : query ∈ queries)
    (hLe : value ≤ query) : query ∈ queries.dropWhile (fun query => query < value) := by
  rw [← List.takeWhile_append_dropWhile
    (p := fun query => decide (query < value)) (l := queries),
    List.mem_append] at hMem
  rcases hMem with hTaken | hLeft
  · have hBelow := List.mem_takeWhile_imp hTaken
    rw [decide_eq_true_eq] at hBelow
    exact absurd hBelow (not_lt.mpr hLe)
  · exact hLeft

/- By induction over the values. -/
theorem meets_eq_true_iff {queries values : List α} (hQueries : queries.Pairwise (· ≤ ·))
    (hValues : values.Pairwise (· ≤ ·)) :
    meets queries values = true ↔ ∃ value ∈ values, value ∈ queries := by
  induction values generalizing queries with
  | nil => simp [meets]
  | cons value values ih =>
    rw [List.pairwise_cons] at hValues
    have hKeep :
        ∀ other ∈ value :: values,
          other ∈ queries ↔ other ∈ queries.dropWhile (fun query => query < value) := by
      intro other hOther
      constructor
      · intro hMem
        apply mem_dropWhile_of_le hMem
        rcases List.mem_cons.mp hOther with rfl | hLater
        · exact le_refl _
        · exact hValues.1 other hLater
      · exact fun hMem => (List.dropWhile_suffix _).subset hMem
    have hSorted :=
      hQueries.sublist (List.dropWhile_suffix (fun query => decide (query < value))).sublist
    have hHead := List.head?_dropWhile_not (fun query => decide (query < value)) queries
    unfold meets
    cases
      hDrop :
        queries.dropWhile (fun query => query < value) with
    | nil =>
      rw [hDrop] at hKeep
      simp only [Bool.false_eq_true, false_iff]
      rintro ⟨other, hOther, hMem⟩
      exact List.not_mem_nil ((hKeep other hOther).mp hMem)
    | cons query rest =>
      rw [hDrop] at hKeep hSorted hHead
      dsimp only
      by_cases hSame : query = value
      · rw [if_pos hSame]
        refine ⟨fun _ => ⟨value, List.mem_cons_self, ?_⟩, fun _ => rfl⟩
        rw [hKeep value List.mem_cons_self, hSame]
        exact List.mem_cons_self
      · rw [if_neg hSame, ih hSorted hValues.2]
        have hAbove : value < query := by
          have hNot : ¬ query < value := by simpa using hHead
          exact lt_of_le_of_ne (not_lt.mp hNot) (Ne.symm hSame)
        constructor
        · rintro ⟨other, hOther, hMem⟩
          have hLater := List.mem_cons_of_mem value hOther
          exact ⟨other, hLater, (hKeep other hLater).mpr hMem⟩
        · rintro ⟨other, hOther, hMem⟩
          have hHere := (hKeep other hOther).mp hMem
          rcases List.mem_cons.mp hOther with rfl | hLater
          · rw [List.pairwise_cons] at hSorted
            rcases List.mem_cons.mp hHere with hEq | hMore
            · exact absurd hEq.symm hSame
            · exact absurd (hSorted.1 _ hMore) (not_le.mpr hAbove)
          · exact ⟨other, hLater, hHere⟩

end Queries

--- Differences

/- The values that differences lead to. -/
def sums : Nat → List Nat → List Nat
  | _, [] => []
  | before, delta :: deltas => (before + delta) :: sums (before + delta) deltas

def differences : Nat → List Nat → List Nat
  | _, [] => []
  | before, value :: values => (value - before) :: differences value values

theorem length_differences (before : Nat) (values : List Nat) :
    (differences before values).length = values.length := by
  induction values generalizing before with
  | nil => rfl
  | cons value values ih =>
    unfold differences
    rw [List.length_cons, List.length_cons, ih]

theorem sums_differences {before : Nat} {values : List Nat}
    (hBefore : ∀ value ∈ values, before ≤ value) (hSorted : values.Pairwise (· ≤ ·)) :
    sums before (differences before values) = values := by
  induction values generalizing before with
  | nil => rfl
  | cons value values ih =>
    rw [List.pairwise_cons] at hSorted
    have hHere : before + (value - before) = value :=
      Nat.add_sub_cancel' (hBefore value List.mem_cons_self)
    unfold differences sums
    rw [hHere, ih hSorted.1 hSorted.2]

theorem le_of_mem_sums {before value : Nat} {deltas : List Nat}
    (hMem : value ∈ sums before deltas) : before ≤ value := by
  induction deltas generalizing before with
  | nil => cases hMem
  | cons delta deltas ih =>
    unfold sums at hMem
    rcases List.mem_cons.mp hMem with rfl | hLater
    · exact Nat.le_add_right _ _
    · have hRest := ih hLater
      omega

theorem pairwise_sums (before : Nat) (deltas : List Nat) :
    (sums before deltas).Pairwise (· ≤ ·) := by
  induction deltas generalizing before with
  | nil => exact List.Pairwise.nil
  | cons delta deltas ih =>
    unfold sums
    rw [List.pairwise_cons]
    exact ⟨fun value hMem => le_of_mem_sums hMem, ih _⟩

end SortedStream

--- Bits

namespace GolombRice

/- The lowest `width` bits of a number, the highest of them first. -/
def bitsOf : Nat → Nat → List Bool
  | 0, _ => []
  | width + 1, value => value.testBit width :: bitsOf width value

def natOfBits (value : Nat) (bits : List Bool) : Nat :=
  bits.foldl (fun value bit => 2 * value + bit.toNat) value

theorem length_bitsOf (width value : Nat) : (bitsOf width value).length = width := by
  induction width with
  | zero => rfl
  | succ width ih =>
    unfold bitsOf
    rw [List.length_cons, ih]

/- By induction over the width. -/
theorem natOfBits_bitsOf (width value start : Nat) :
    natOfBits start (bitsOf width value) = start * 2 ^ width + value % 2 ^ width := by
  induction width generalizing start with
  | zero =>
    unfold bitsOf natOfBits
    rw [List.foldl_nil, pow_zero, Nat.mod_one, mul_one, add_zero]
  | succ width ih =>
    have hStep :
        natOfBits start (bitsOf (width + 1) value) =
          natOfBits (2 * start + (value.testBit width).toNat) (bitsOf width value) :=
      rfl
    rw [hStep, ih, Nat.mod_pow_succ, Nat.toNat_testBit]
    ring

--- Words

def word (p value : Nat) : List Bool :=
  List.replicate (value / 2 ^ p) true ++ false :: bitsOf p (value % 2 ^ p)

def stream (p : Nat) (values : List Nat) : List Bool := values.flatMap (word p)

--- Bytes

/- The first eight bits, with zeros behind them where fewer are left. -/
def byteOf (bits : List Bool) : UInt8 :=
  UInt8.ofNat (natOfBits 0 ((bits ++ List.replicate 8 false).take 8))

/- As many bytes as hold the bits. -/
def packBits : List Bool → List UInt8
  | [] => []
  | bit :: bits => byteOf (bit :: bits) :: packBits ((bit :: bits).drop 8)
  termination_by bits => bits.length
  decreasing_by
    simp only [List.length_drop, List.length_cons]
    omega

def byteBits (byte : UInt8) : List Bool := bitsOf 8 byte.toNat

theorem byteBits_natOfBits :
    ∀ b₀ b₁ b₂ b₃ b₄ b₅ b₆ b₇ : Bool,
    byteBits (UInt8.ofNat (natOfBits 0 [b₀, b₁, b₂, b₃, b₄, b₅, b₆, b₇])) =
      [b₀, b₁, b₂, b₃, b₄, b₅, b₆, b₇] := by
  decide +kernel

theorem byteBits_byteOf (bits : List Bool) :
    byteBits (byteOf bits) = (bits ++ List.replicate 8 false).take 8 := by
  have hLength : ((bits ++ List.replicate 8 false).take 8).length = 8 := by
    rw [List.length_take, List.length_append, List.length_replicate]
    omega
  unfold byteOf
  match hBits : (bits ++ List.replicate 8 false).take 8 with
  | [b₀, b₁, b₂, b₃, b₄, b₅, b₆, b₇] => exact byteBits_natOfBits b₀ b₁ b₂ b₃ b₄ b₅ b₆ b₇
  | [] | [_] | [_, _] | [_, _, _] | [_, _, _, _]
  | [_, _, _, _, _] | [_, _, _, _, _, _]
  | [_, _, _, _, _, _, _] =>
    rw [hBits] at hLength
    simp at hLength
  | _ :: _ :: _ :: _ :: _ :: _ :: _ :: _ :: _ :: _ =>
    rw [hBits] at hLength
    simp at hLength

/- The bits come back, with zeros behind them. -/
theorem exists_unpack_packBits (bits : List Bool) :
    ∃ padding, (packBits bits).flatMap byteBits = bits ++ padding := by
  induction bits using packBits.induct with
  | case1 =>
    refine ⟨[], ?_⟩
    unfold packBits
    rfl
  | case2 bit bits ih =>
    rcases ih with ⟨padding, hRest⟩
    unfold packBits
    rw [List.flatMap_cons, byteBits_byteOf, hRest]
    by_cases hLong : 8 ≤ (bit :: bits).length
    · refine ⟨padding, ?_⟩
      rw [List.take_append_of_le_length hLong, ← List.append_assoc, List.take_append_drop]
    · have hNil : (bit :: bits).drop 8 = [] := List.drop_eq_nil_of_le (by omega)
      refine ⟨(List.replicate 8 false).take (8 - (bit :: bits).length) ++ padding, ?_⟩
      rw [hNil, List.nil_append, List.take_append,
        List.take_of_length_le (by omega), List.append_assoc]

end GolombRice
