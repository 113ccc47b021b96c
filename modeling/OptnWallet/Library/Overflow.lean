import Mathlib.Algebra.BigOperators.Group.List.Basic
import Mathlib.Algebra.Order.Ring.Int
import Mathlib.Algebra.Order.Ring.Nat

/-
  Arithmetic on 64-bit integers in the two kinds of builds: one stops where a result leaves its
  range, and the other keeps the low bits.

  Main declarations:
    * `Overflow.keepSigned` and `Overflow.keepUnsigned`
    * `Overflow.RunsInRange`
    * `Overflow.runsInRange_of_fall`
-/

--- Results

namespace Overflow

/- What a build does with a result out of range. -/
inductive Mode where
  | panics
  | wraps
deriving DecidableEq

def InRange (value : Int) : Prop := -2 ^ 63 ≤ value ∧ value < 2 ^ 63

instance (value : Int) : Decidable (InRange value) := inferInstanceAs (Decidable (_ ∧ _))

def keepSigned (mode : Mode) (exact : Int) : Option Int64 :=
  match mode with
  | .panics => if InRange exact then some (Int64.ofInt exact) else none
  | .wraps => some (Int64.ofInt exact)

def keepUnsigned (mode : Mode) (exact : Nat) : Option UInt64 :=
  match mode with
  | .panics => if exact < 2 ^ 64 then some (UInt64.ofNat exact) else none
  | .wraps => some (UInt64.ofNat exact)

theorem toInt_ofInt {value : Int} (hRange : InRange value) : (Int64.ofInt value).toInt = value :=
  Int64.toInt_ofInt_of_le hRange.1 hRange.2

theorem inRange_toInt (word : Int64) : InRange word.toInt := ⟨word.le_toInt, word.toInt_lt⟩

/- In range no build does anything to a result. -/
theorem keepSigned_eq {exact : Int} (hRange : InRange exact) (mode : Mode) :
    keepSigned mode exact = some (Int64.ofInt exact) := by
  unfold keepSigned
  cases mode with
  | panics => exact if_pos hRange
  | wraps => rfl

theorem keepUnsigned_eq {exact : Nat} (hRange : exact < 2 ^ 64) (mode : Mode) :
    keepUnsigned mode exact = some (UInt64.ofNat exact) := by
  unfold keepUnsigned
  cases mode with
  | panics => exact if_pos hRange
  | wraps => rfl

theorem inRange_of_keepSigned {exact : Int} {word : Int64}
    (hKeep : keepSigned .panics exact = some word) : InRange exact ∧ word.toInt = exact := by
  unfold keepSigned at hKeep
  dsimp only at hKeep
  split at hKeep
  · rename_i hRange
    cases hKeep
    exact ⟨hRange, toInt_ofInt hRange⟩
  · cases hKeep

/- The signed reading of an unsigned word. -/
theorem toInt_toInt64 (word : UInt64) :
    word.toInt64.toInt =
      if word.toNat < 2 ^ 63 then (word.toNat : Int)
      else (word.toNat : Int) - 2 ^ 64 := by
  have hLt := word.toNat_lt
  rw [← Int64.toInt_toBitVec, UInt64.toBitVec_toInt64, BitVec.toInt_eq_toNat_bmod,
    UInt64.toNat_toBitVec, Int.bmod_def]
  split <;> split <;> omega

--- Running Sums

/- Every sum on the way is in range. -/
def RunsInRange (start : Int) : List Int → Prop
  | [] => InRange start
  | step :: steps => InRange start ∧ RunsInRange (start + step) steps

variable {start : Int} {steps : List Int}

@[simp]
theorem runsInRange_cons {step : Int} :
    RunsInRange start (step :: steps) ↔ InRange start ∧ RunsInRange (start + step) steps := Iff.rfl

theorem inRange_of_runs (hRuns : RunsInRange start steps) : InRange start := by
  cases steps with
  | nil => exact hRuns
  | cons step steps => exact hRuns.1

theorem runsInRange_append {front back : List Int} :
    RunsInRange start (front ++ back) ↔
    RunsInRange start front ∧ RunsInRange (start + front.sum) back := by
  induction front generalizing start with
  | nil =>
    rw [List.nil_append, List.sum_nil, add_zero]
    exact ⟨fun hRuns => ⟨inRange_of_runs hRuns, hRuns⟩, fun hRuns => hRuns.2⟩
  | cons step front ih =>
    rw [List.cons_append, runsInRange_cons, ih, runsInRange_cons, List.sum_cons, ← add_assoc,
      and_assoc]

theorem runsInRange_iff :
    RunsInRange start steps ↔ ∀ count, InRange (start + (steps.take count).sum) := by
  induction steps generalizing start with
  | nil =>
    simp only [List.take_nil, List.sum_nil, add_zero, forall_const]
    exact Iff.rfl
  | cons step steps ih =>
    rw [runsInRange_cons, ih]
    constructor
    · intro hRuns count
      cases count with
      | zero =>
        rw [List.take_zero, List.sum_nil, add_zero]
        exact hRuns.1
      | succ count =>
        rw [List.take_succ_cons, List.sum_cons, ← add_assoc]
        exact hRuns.2 count
    · intro hAll
      constructor
      · have hStart := hAll 0
        rw [List.take_zero, List.sum_nil, add_zero] at hStart
        exact hStart
      · intro count
        have hNext := hAll (count + 1)
        rw [List.take_succ_cons, List.sum_cons, ← add_assoc] at hNext
        exact hNext

theorem sum_nonpos (hFall : ∀ step ∈ steps, step ≤ 0) : steps.sum ≤ 0 := by
  induction steps with
  | nil => exact le_refl 0
  | cons step steps ih =>
    rw [List.forall_mem_cons] at hFall
    rw [List.sum_cons]
    have hRest := ih hFall.2
    omega

theorem sum_le_of_mem (hFall : ∀ step ∈ steps, step ≤ 0) {step : Int} (hMem : step ∈ steps) :
    steps.sum ≤ step := by
  induction steps with
  | nil => cases hMem
  | cons first steps ih =>
    rw [List.forall_mem_cons] at hFall
    rw [List.sum_cons]
    rcases List.mem_cons.mp hMem with hSame | hMem
    · have hRest := sum_nonpos hFall.2
      omega
    · have hRest := ih hFall.2 hMem
      omega

/- Steps that do not fall by more than a bound. -/
theorem neg_mul_length_le_sum {bound : Nat} (hBound : ∀ step ∈ steps, -(bound : Int) ≤ step) :
    -((bound * steps.length : Nat) : Int) ≤ steps.sum := by
  induction steps with
  | nil => simp
  | cons step steps ih =>
    rw [List.forall_mem_cons] at hBound
    rw [List.sum_cons, List.length_cons, Nat.mul_succ, Nat.cast_add]
    have hRest := ih hBound.2
    omega

/- A sum that only falls is in range on the way where it starts and ends in range. -/
theorem runsInRange_of_fall (hFall : ∀ step ∈ steps, step ≤ 0) (hStart : InRange start)
    (hEnd : InRange (start + steps.sum)) : RunsInRange start steps := by
  induction steps generalizing start with
  | nil => exact hStart
  | cons step steps ih =>
    rw [List.forall_mem_cons] at hFall
    rw [List.sum_cons, ← add_assoc] at hEnd
    refine ⟨hStart, ih hFall.2 ?_ hEnd⟩
    have hRest := sum_nonpos hFall.2
    unfold InRange at hStart hEnd ⊢
    omega

end Overflow
