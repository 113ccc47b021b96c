import OptnWallet.Core.Cashaddr
import OptnWallet.Library.Overflow
import OptnWallet.Library.StagedUpdate
import OptnWallet.Runtime.HeaderStore

/-
  Runs of consecutive blocks out of the retained ones: every height of a range, and the blocks
  just before a height.

  Main declarations:
    * `RetainedHeaders.rangeInclusive` and `RetainedHeaders.preceding`
    * `RetainedHeaders.RangeAnswer` and `RetainedHeaders.PrecedingAnswer`
    * `RetainedHeaders.ranges_exact_iff`
-/

--- Reads

namespace OptnWallet.RetainedHeaders

open Overflow StagedUpdate

variable {H : Type}

/- The lowest and the highest retained height. -/
def retainedSpan (headers : RetainedHeaders H) : Option (UInt32 × UInt32) := do
  let first ← headers.byHeight.keys.head?
  let last ← headers.byHeight.keys.getLast?
  some (first, last)

/- So many heights, from the first one up. -/
def heightsUpward (first count : Nat) : List UInt32 :=
  (List.range count).map (fun i => UInt32.ofNat (first + i))

def collect (headers : RetainedHeaders H) :
    List UInt32 → Except HeaderStoreError (List (UInt32 × H))
  | [] => .ok []
  | height :: heights =>
    match headers.byHeight.get? height with
    | none => .error (.discontiguous height)
    | some entry => do
        let blocks ← collect headers heights
        .ok ((height, entry.hash) :: blocks)

variable (mode : Mode)

/- The capacity is computed as a word of 32 bits before anything is read, and a build that checks
   sums stops where it does not fit. -/
def rangeInclusive (headers : RetainedHeaders H) (start stop : UInt32) :
    Except (Fault HeaderStoreError) (List (UInt32 × H)) :=
  if stop < start then .error (.error (.emptyRange start stop))
  else if (headers.byHeight.get? start).isNone then
    .error (.error (.notRetained start headers.retainedSpan))
  else if (headers.byHeight.get? stop).isNone then
    .error (.error (.notRetained stop headers.retainedSpan))
  else if mode = .panics ∧ 2 ^ 32 ≤ (stop - start).toNat + 1
  then .error .panic
  else (headers.collect (heightsUpward start.toNat (stop.toNat + 1 - start.toNat))).mapError .error

/- The count is cut to 32 bits. -/
def preceding (headers : RetainedHeaders H) (height : UInt32) (count : UInt64) :
    Except (Fault HeaderStoreError) (List (UInt32 × H)) :=
  if count = 0 then .ok []
  else
    let start := Word32.saturatingSub height count.toUInt32
    match Word32.checkedSub height 1 with
    | none => .error (.error (.emptyRange height height))
    | some stop => headers.rangeInclusive mode start stop

--- Answers

section

variable (headers : RetainedHeaders H)

/- The blocks are those of the heights, in their order. -/
def Lists (heights : List UInt32) (blocks : List (UInt32 × H)) : Prop :=
  blocks.map some =
    heights.map (fun height => (headers.hashAt height).map (fun hash => (height, hash)))

/- All hashes of a range, or a height of it that is missing. -/
def RangeAnswer (start stop : UInt32) : Except (Fault HeaderStoreError) (List (UInt32 × H)) → Prop
  | .ok blocks =>
    start ≤ stop ∧ headers.Lists (heightsUpward start.toNat (stop.toNat + 1 - start.toNat)) blocks
  | .error (.error (.notRetained requested _)) =>
    start ≤ requested ∧ requested ≤ stop ∧ headers.hashAt requested = none
  | .error (.error (.discontiguous missing)) =>
    start ≤ missing ∧ missing ≤ stop ∧ headers.hashAt missing = none
  | .error (.error (.emptyRange _ _)) => stop < start
  | .error (.error (.linkage _)) => False
  | .error .panic => False

/- As many blocks as were asked for or as there are below the height, or an error. -/
def PrecedingAnswer (height : UInt32) (count : UInt64) :
    Except (Fault HeaderStoreError) (List (UInt32 × H)) → Prop
  | .ok blocks => headers.Lists
      (heightsUpward (height.toNat - min count.toNat height.toNat) (min count.toNat height.toNat))
      blocks
  | .error (.error _) => True
  | .error .panic => False

end

--- Collecting

variable {headers : RetainedHeaders H} {height : UInt32}

theorem hashAt_eq_none_iff :
    headers.hashAt height = none ↔ headers.byHeight.get? height = none := by
  unfold hashAt
  rw [Option.map_eq_none_iff]

theorem length_heightsUpward (first count : Nat) : (heightsUpward first count).length = count := by
  unfold heightsUpward
  rw [List.length_map, List.length_range]

theorem mem_heightsUpward {first count : Nat} (hFits : first + count ≤ 2 ^ 32) :
    height ∈ heightsUpward first count ↔ first ≤ height.toNat ∧ height.toNat < first + count := by
  unfold heightsUpward
  rw [List.mem_map]
  constructor
  · rintro ⟨i, hI, rfl⟩
    rw [List.mem_range] at hI
    rw [UInt32.toNat_ofNat', Nat.mod_eq_of_lt (by omega)]
    omega
  · rintro ⟨hFirst, hLast⟩
    refine ⟨height.toNat - first, ?_, ?_⟩
    · rw [List.mem_range]
      omega
    · rw [Nat.add_sub_cancel' hFirst, UInt32.ofNat_toNat]

variable {heights : List UInt32}

theorem Lists.length_eq {blocks : List (UInt32 × H)} (hLists : headers.Lists heights blocks) :
    blocks.length = heights.length := by
  have hLength := congrArg List.length hLists
  rw [List.length_map, List.length_map] at hLength
  exact hLength

/- All heights are listed, or one of them is missing.  By induction over the heights. -/
theorem collect_cases (headers : RetainedHeaders H) (heights : List UInt32) :
    (∃ blocks, headers.collect heights = .ok blocks ∧ headers.Lists heights blocks) ∨
    ∃ missing ∈ heights,
      headers.collect heights = .error (.discontiguous missing) ∧
        headers.hashAt missing = none := by
  induction heights with
  | nil => exact Or.inl ⟨[], rfl, rfl⟩
  | cons height heights ih =>
    unfold collect
    cases hGet : headers.byHeight.get? height with
    | none =>
      right
      exact ⟨height, List.mem_cons_self, rfl, hashAt_eq_none_iff.mpr hGet⟩
    | some entry =>
      dsimp only
      rcases ih with ⟨blocks, hCollect, hLists⟩ | ⟨missing, hMem, hCollect, hNone⟩
      · left
        refine ⟨(height, entry.hash) :: blocks, ?_, ?_⟩
        · rw [hCollect]
          rfl
        · unfold Lists hashAt at hLists ⊢
          rw [List.map_cons, List.map_cons, hLists, hGet]
          rfl
      · right
        refine ⟨missing, List.mem_cons_of_mem _ hMem, ?_, hNone⟩
        rw [hCollect]
        rfl

--- Ranges

/- The only sum that does not fit is that of all heights. -/
theorem span_fits_iff {start stop : UInt32} (hOrder : ¬ stop < start) :
    2 ^ 32 ≤ (stop - start).toNat + 1 ↔ start = 0 ∧ stop = UInt32.ofNat (2 ^ 32 - 1) := by
  have hLe := UInt32.not_lt.mp hOrder
  have hSub := UInt32.toNat_sub_of_le stop start hLe
  have hStop := stop.toNat_lt
  have hLast : (UInt32.ofNat (2 ^ 32 - 1)).toNat = 2 ^ 32 - 1 := rfl
  rw [hSub, ← UInt32.toNat_inj, ← UInt32.toNat_inj, hLast, UInt32.toNat_zero]
  rw [UInt32.le_iff_toNat_le] at hLe
  omega

theorem isNone_get?_iff :
    (headers.byHeight.get? height).isNone = true ↔ headers.hashAt height = none := by
  rw [Option.isNone_iff_eq_none, hashAt_eq_none_iff]

/- A range is answered exactly, unless a checked sum stops over all heights. -/
theorem rangeInclusive_answer_iff (headers : RetainedHeaders H) (start stop : UInt32) :
    headers.RangeAnswer start stop (headers.rangeInclusive mode start stop) ↔
    ¬ (mode = .panics ∧ start = 0 ∧
        stop = UInt32.ofNat (2 ^ 32 - 1) ∧
        (headers.hashAt start).isSome ∧
        (headers.hashAt stop).isSome) := by
  unfold rangeInclusive
  split
  · rename_i hOrder
    constructor
    · rintro - ⟨-, rfl, rfl, -⟩
      exact absurd hOrder (by decide)
    · intro _
      exact hOrder
  · rename_i hOrder
    have hLe := UInt32.not_lt.mp hOrder
    split
    · rename_i hStart
      rw [isNone_get?_iff] at hStart
      constructor
      · rintro - ⟨-, -, -, hSome, -⟩
        rw [hStart] at hSome
        cases hSome
      · intro _
        exact ⟨UInt32.le_refl _, hLe, hStart⟩
    · rename_i hStart
      split
      · rename_i hStop
        rw [isNone_get?_iff] at hStop
        constructor
        · rintro - ⟨-, -, -, -, hSome⟩
          rw [hStop] at hSome
          cases hSome
        · intro _
          exact ⟨hLe, UInt32.le_refl _, hStop⟩
      · rename_i hStop
        rw [isNone_get?_iff, ← ne_eq, ← Option.isSome_iff_ne_none] at hStart hStop
        have hSpan := span_fits_iff hOrder
        split
        · rename_i hOver
          rcases hSpan.mp hOver.2 with ⟨hFirst, hLast⟩
          constructor
          · intro hFalse
            exact absurd hFalse id
          · intro hNot
            exact absurd ⟨hOver.1, hFirst, hLast, hStart, hStop⟩ hNot
        · rename_i hFits
          constructor
          · rintro - ⟨hMode, hFirst, hLast, -, -⟩
            exact hFits ⟨hMode, hSpan.mpr ⟨hFirst, hLast⟩⟩
          · intro _
            rcases headers.collect_cases (heightsUpward start.toNat (stop.toNat + 1 - start.toNat))
              with ⟨blocks, hCollect, hLists⟩ | ⟨missing, hMem, hCollect, hNone⟩
            · rw [hCollect]
              exact ⟨hLe, hLists⟩
            · rw [hCollect]
              have hStopLt := stop.toNat_lt
              rw [UInt32.le_iff_toNat_le] at hLe
              rw [mem_heightsUpward (by omega)] at hMem
              refine ⟨?_, ?_, hNone⟩
              · rw [UInt32.le_iff_toNat_le]
                omega
              · rw [UInt32.le_iff_toNat_le]
                omega

--- Blocks before a Height

theorem Lists.isSome {blocks : List (UInt32 × H)} (hLists : headers.Lists heights blocks)
    (hMem : height ∈ heights) : (headers.hashAt height).isSome := by
  have hEntry : (headers.hashAt height).map (fun hash => (height, hash)) ∈ blocks.map some := by
    rw [hLists]
    exact List.mem_map_of_mem hMem
  rcases List.mem_map.mp hEntry with ⟨block, -, hBlock⟩
  cases hHash : headers.hashAt height with
  | some hash => rfl
  | none =>
    rw [hHash] at hBlock
    cases hBlock

/- The window that is read when a count is cut to 32 bits. -/
theorem preceding_bounds {start stop : UInt32} {count : UInt64}
    (hStart : start = Word32.saturatingSub height count.toUInt32)
    (hStop : Word32.checkedSub height 1 = some stop) :
    start.toNat = height.toNat - count.toNat % 2 ^ 32 ∧ stop.toNat + 1 = height.toNat := by
  have hNext := Word32.checkedSub_one_eq_some_iff.mp hStop
  constructor
  · rw [hStart, Word32.toNat_saturatingSub]
    rfl
  · exact hNext.symm

/- A window is cut short exactly when the count leaves 32 bits, what is left of it is smaller than
   the height, and that window can be read. -/
theorem preceding_answer_iff (headers : RetainedHeaders H) (height : UInt32) (count : UInt64) :
    headers.PrecedingAnswer height count (headers.preceding mode height count) ↔
    ¬ (2 ^ 32 ≤ count.toNat ∧ 0 < count.toNat % 2 ^ 32 ∧
          count.toNat % 2 ^ 32 < height.toNat ∧
          ∀ other : UInt32,
        height.toNat - count.toNat % 2 ^ 32 ≤ other.toNat → other.toNat < height.toNat →
          (headers.hashAt other).isSome) := by
  unfold preceding
  split
  · rename_i hZero
    rw [hZero]
    constructor
    · rintro - ⟨hLarge, -⟩
      exact absurd hLarge (by decide)
    · intro _
      unfold PrecedingAnswer Lists heightsUpward
      simp
  · rename_i hCount
    dsimp only
    split
    · rename_i hNone
      constructor
      · rintro - ⟨-, -, hLess, -⟩
        unfold Word32.checkedSub at hNone
        split at hNone
        · cases hNone
        · rename_i hZero
          have hOne : (1 : UInt32).toNat = 1 := rfl
          rw [UInt32.le_iff_toNat_le, hOne] at hZero
          omega
      · intro _
        exact trivial
    · rename_i stop hStop
      generalize hStart : Word32.saturatingSub height count.toUInt32 = start
      rcases preceding_bounds hStart.symm hStop with ⟨hFirst, hLast⟩
      have hHeight := height.toNat_lt
      have hNotAll : stop ≠ UInt32.ofNat (2 ^ 32 - 1) := by
        intro hAll
        have hMost : (UInt32.ofNat (2 ^ 32 - 1)).toNat = 2 ^ 32 - 1 := rfl
        rw [hAll, hMost] at hLast
        omega
      have hAnswer :=
        (headers.rangeInclusive_answer_iff mode start stop).mpr (fun hAll => hNotAll hAll.2.2.1)
      cases hRange : headers.rangeInclusive mode start stop with
      | ok blocks =>
        rw [hRange] at hAnswer
        rcases hAnswer with ⟨hOrder, hLists⟩
        rw [UInt32.le_iff_toNat_le] at hOrder
        have hWidth : stop.toNat + 1 - start.toNat = min (count.toNat % 2 ^ 32) height.toNat := by
          omega
        constructor
        · rintro hExact ⟨hLarge, hPositive, hLess, -⟩
          have hLengths := hLists.length_eq.symm.trans hExact.length_eq
          rw [length_heightsUpward, length_heightsUpward, hWidth] at hLengths
          omega
        · intro hNot
          have hSame : min (count.toNat % 2 ^ 32) height.toNat = min count.toNat height.toNat := by
            by_contra hDifferent
            apply hNot
            refine ⟨by omega, by omega, by omega, ?_⟩
            intro other hAbove hBelow
            apply hLists.isSome
            rw [mem_heightsUpward (by omega)]
            omega
          have hFrom : height.toNat - min count.toNat height.toNat = start.toNat := by
            rw [← hSame, hFirst]
            omega
          unfold PrecedingAnswer
          rw [hFrom, ← hSame, ← hWidth]
          exact hLists
      | error fault =>
        rw [hRange] at hAnswer
        -- A missing height or an empty window is no cut.
        have hMissing :
            ∀ missing : UInt32,
            start ≤ missing → missing ≤ stop →
              headers.hashAt missing = none →
              ¬ ∀ other : UInt32, height.toNat - count.toNat % 2 ^ 32 ≤ other.toNat → other.toNat <
                height.toNat → (headers.hashAt other).isSome := by
          intro missing hAbove hBelow hGone hRetained
          rw [UInt32.le_iff_toNat_le] at hAbove hBelow
          have hSome := hRetained missing (by omega) (by omega)
          rw [hGone] at hSome
          cases hSome
        cases fault with
        | panic => exact absurd hAnswer id
        | error e =>
          refine ⟨fun _ => ?_, fun _ => trivial⟩
          rintro ⟨-, hPositive, hLess, hRetained⟩
          cases e with
          | notRetained requested retained =>
            exact hMissing requested hAnswer.1 hAnswer.2.1 hAnswer.2.2 hRetained
          | discontiguous missing =>
            exact hMissing missing hAnswer.1 hAnswer.2.1 hAnswer.2.2 hRetained
          | emptyRange first last =>
            have hEmpty : stop < start := hAnswer
            rw [UInt32.lt_iff_toNat_lt] at hEmpty
            omega
          | linkage other => exact hAnswer

/-
  Ranges are exact apart from two limits of 32 bits: a checked sum stops over all heights at once,
  where both ends are retained, and a count that leaves 32 bits is cut to a window that is too
  short, where that window is retained.
-/
theorem ranges_exact_iff (mode : Mode) (headers : RetainedHeaders H) :
    (∀ start stop,
        headers.RangeAnswer start stop (headers.rangeInclusive mode start stop) ↔
          ¬ (mode = .panics ∧ start = 0 ∧
              stop = UInt32.ofNat (2 ^ 32 - 1) ∧
              (headers.hashAt start).isSome ∧
              (headers.hashAt stop).isSome)) ∧
    ∀ height count,
      headers.PrecedingAnswer height count (headers.preceding mode height count) ↔
        ¬ (2 ^ 32 ≤ count.toNat ∧ 0 < count.toNat % 2 ^ 32 ∧
              count.toNat % 2 ^ 32 < height.toNat ∧
              ∀ other : UInt32,
            height.toNat - count.toNat % 2 ^ 32 ≤ other.toNat → other.toNat < height.toNat →
              (headers.hashAt other).isSome) :=
  ⟨headers.rangeInclusive_answer_iff mode, headers.preceding_answer_iff mode⟩

/- Two blocks, of which one is asked for as more than there are heights. -/
def twoRetained : RetainedHeaders UInt8 := ((new.insertHashOnly 0 7).insertHashOnly 1 8)

def bothEnds : RetainedHeaders UInt8 :=
  ((new.insertHashOnly 0 7).insertHashOnly (UInt32.ofNat (2 ^ 32 - 1)) 8)

theorem large_count_is_cut :
    (twoRetained.preceding .wraps 2 (UInt64.ofNat (2 ^ 32 + 1)) = .ok [(1, 8)] ∧
        ¬ twoRetained.PrecedingAnswer 2 (UInt64.ofNat (2 ^ 32 + 1)) (.ok [(1, 8)])) ∧
    (bothEnds.rangeInclusive .panics 0 (UInt32.ofNat (2 ^ 32 - 1)) = .error .panic ∧
      ¬ bothEnds.RangeAnswer 0 (UInt32.ofNat (2 ^ 32 - 1)) (.error .panic)) := by
  refine ⟨⟨by decide +kernel, ?_⟩, ⟨by decide +kernel, id⟩⟩
  intro hExact
  have hLength := hExact.length_eq
  rw [length_heightsUpward] at hLength
  exact absurd hLength (by decide)

end OptnWallet.RetainedHeaders
