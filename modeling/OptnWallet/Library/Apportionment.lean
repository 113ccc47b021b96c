import Mathlib.Algebra.BigOperators.Ring.List
import Mathlib.Algebra.Order.BigOperators.Group.List
import Mathlib.Data.Rat.Floor

/-
  A total that is divided by weights and rounded.  Parts that are rounded down to a grid come to
  at most the total, and what is left goes to one of them.  Parts that are rounded up come to at
  least the rounded total.

  Main declarations:
    * `Apportionment.portions`
    * `Apportionment.sum_portions_le`
    * `Apportionment.sum_giveRest`
    * `Apportionment.ceil_sum_le`
-/

--- Rounding Down

namespace Apportionment

/- A number on the grid below another one. -/
def onGrid (grid : Int) (x : ℚ) : Int := ⌊x / grid⌋ * grid

theorem onGrid_nonneg {grid : Int} (hGrid : 0 < grid) {x : ℚ} (hNonneg : 0 ≤ x) :
    0 ≤ onGrid grid x := by
  have hCast : (0 : ℚ) < grid := Int.cast_pos.mpr hGrid
  exact Int.mul_nonneg (Int.floor_nonneg.mpr (div_nonneg hNonneg hCast.le)) hGrid.le

theorem onGrid_le {grid : Int} (hGrid : 0 < grid) (x : ℚ) : (onGrid grid x : ℚ) ≤ x := by
  have hCast : (0 : ℚ) < grid := Int.cast_pos.mpr hGrid
  unfold onGrid
  rw [Int.cast_mul]
  calc
    (⌊x / grid⌋ : ℚ) * grid ≤ x / grid * grid :=
      mul_le_mul_of_nonneg_right (Int.floor_le _) hCast.le
    _ = x := div_mul_cancel₀ x hCast.ne'

/- What each weight gets of the total, on the grid. -/
def portions (grid total : Int) (weights : List ℚ) : List Int :=
  weights.map (fun weight => onGrid grid (weight / weights.sum * total))

variable {grid total : Int} {weights : List ℚ}

theorem portions_nonneg (hGrid : 0 < grid) (hTotal : 0 ≤ total)
    (hWeights : ∀ weight ∈ weights, 0 ≤ weight) :
    ∀ portion ∈ portions grid total weights, 0 ≤ portion := by
  intro portion hMem
  unfold portions at hMem
  rw [List.mem_map] at hMem
  rcases hMem with ⟨weight, hWeight, rfl⟩
  apply onGrid_nonneg hGrid
  apply mul_nonneg
  · exact div_nonneg (hWeights weight hWeight) (List.sum_nonneg hWeights)
  · exact Int.cast_nonneg hTotal

/- By induction over the parts. -/
theorem sum_map_onGrid_le (hGrid : 0 < grid) (parts : List ℚ) :
    (((parts.map (onGrid grid)).sum : Int) : ℚ) ≤ parts.sum := by
  induction parts with
  | nil => simp
  | cons part parts ih =>
    rw [List.map_cons, List.sum_cons, List.sum_cons, Int.cast_add]
    exact add_le_add (onGrid_le hGrid part) ih

theorem sum_map_div_mul (hSum : weights.sum ≠ 0) :
    (weights.map (fun weight => weight / weights.sum * total)).sum = total := by
  have hFactor :
      (fun weight : ℚ => weight / weights.sum * total) =
        fun weight => weight * (total / weights.sum) := by
    funext weight
    ring
  rw [hFactor, List.sum_map_mul_right, List.map_id', mul_div_cancel₀ _ hSum]

theorem sum_portions_le (hGrid : 0 < grid) (hSum : weights.sum ≠ 0) :
    (portions grid total weights).sum ≤ total := by
  have hLe := sum_map_onGrid_le hGrid (weights.map (fun weight => weight / weights.sum * total))
  rw [sum_map_div_mul hSum, List.map_map] at hLe
  exact Int.cast_le.mp hLe

--- What Is Left

/- What is left is given to one of the parts. -/
def giveRest (total : Int) (target : Nat) (values : List Int) : List Int :=
  values.modify target (fun value => value + (total - values.sum))

variable {target : Nat}

theorem sum_modify_add (values : List Int) (hTarget : target < values.length) (rest : Int) :
    (values.modify target (fun value => value + rest)).sum = values.sum + rest := by
  induction values generalizing target with
  | nil => cases hTarget
  | cons value values ih =>
    cases target with
    | zero =>
      rw [List.modify_zero_cons, List.sum_cons, List.sum_cons]
      ring
    | succ target =>
      rw [List.modify_succ_cons, List.sum_cons, List.sum_cons, ih (Nat.lt_of_succ_lt_succ hTarget)]
      ring

theorem sum_giveRest (total : Int) {values : List Int} (hTarget : target < values.length) :
    (giveRest total target values).sum = total := by
  unfold giveRest
  rw [sum_modify_add values hTarget]
  ring

/- No part gets smaller. -/
theorem le_of_mem_giveRest {least : Int} {values : List Int} (hTotal : values.sum ≤ total)
    (hLeast : ∀ value ∈ values, least ≤ value) :
    ∀ value ∈ giveRest total target values, least ≤ value := by
  intro value hMem
  unfold giveRest at hMem
  rcases List.mem_iff_getElem?.mp hMem with ⟨position, hGet⟩
  rw [List.getElem?_modify] at hGet
  cases hOld : values[position]? with
  | none =>
    rw [hOld] at hGet
    split at hGet <;> cases hGet
  | some old =>
    have hOldLeast := hLeast old (List.mem_of_getElem? hOld)
    rw [hOld] at hGet
    split at hGet
    · cases hGet
      dsimp only
      omega
    · cases hGet
      exact hOldLeast

--- Rounding Up

/- By induction over the parts. -/
theorem ceil_sum_le (parts : List ℚ) : ⌈parts.sum⌉ ≤ (parts.map Int.ceil).sum := by
  induction parts with
  | nil => simp
  | cons part parts ih =>
    rw [List.sum_cons, List.map_cons, List.sum_cons]
    calc
      ⌈part + parts.sum⌉ ≤ ⌈part⌉ + ⌈parts.sum⌉ := Int.ceil_add_le part parts.sum
      _ ≤ ⌈part⌉ + (parts.map Int.ceil).sum := Int.add_le_add_left ih _

end Apportionment
