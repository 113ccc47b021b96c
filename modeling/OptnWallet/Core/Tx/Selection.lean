import OptnWallet.Core.Tx
import OptnWallet.Library.SortedLists
import OptnWallet.Library.StagedUpdate

/-
  Which coins pay for a transaction: the largest ones, until they cover the target and a fee that
  grows with each of them.

  Main declarations:
    * `estimateSize`
    * `selectCoins`
    * `Selected` and `Covers`
    * `selectCoins_largest_first`
-/

--- Sizes and Costs

namespace OptnWallet

open LargestFirst StagedUpdate

/- A result that fits 64 bits. -/
def fits (value : Nat) : Option Nat :=
  if value < 2 ^ 64 then some value else none

def orUsage (message : String) (value : Option Nat) : Except CliError Nat :=
  match value with
  | some value => .ok value
  | none => .error (.usage message)

/- The size of a signed transaction, for its fee. -/
def estimateSize (inputs outputs : Nat) : Except CliError Nat :=
  orUsage "transaction size exceeds this platform"
    (do
      let bytes ← fits (inputs * 148)
      let outputBytes ← fits (outputs * 34)
      let bytes ← fits (bytes + outputBytes)
      fits (bytes + 10))

/- What so many inputs must bring, and the fee in it. -/
def selectionCost (target feePerByte outputCount : UInt64) (inputs : Nat) :
    Except CliError (Nat × Nat) := do
  let size ← estimateSize inputs outputCount.toNat
  let fee ← orUsage "transaction fee exceeds the amount range" (fits (size * feePerByte.toNat))
  let needed ← orUsage "send amount plus fee exceeds the amount range" (fits (target.toNat + fee))
  .ok (needed, fee)

--- Selection

def Utxo.outpoint (utxo : Utxo) : Vector UInt8 32 × UInt32 := (utxo.txid, utxo.vout)

def Utxo.sats (utxo : Utxo) : Nat := utxo.value.toNat

def addFunding (total : Nat) (utxo : Utxo) : Except CliError Nat :=
  match fits (total + utxo.sats) with
  | some total => .ok total
  | none => .error (.protocol "funding total exceeds the amount range")

/- One coin after the other.  The fee is computed again each time: it grows with every input. -/
def selectLoop (cost : Nat → Except CliError (Nat × Nat)) :
    List Utxo → List Utxo → Nat → Nat → Nat → Except CliError (List Utxo × Nat)
  | [], _, total, needed, fee => .error (.usage
        s!"not enough funds: need {needed} sats (including about {fee} sats of fee) but only {total} sats are spendable")
  | utxo :: rest, chosen, total, _, _ => do
      let total ← addFunding total utxo
      let chosen := chosen ++ [utxo]
      let (needed, fee) ← cost chosen.length
      if needed ≤ total then .ok (chosen, fee)
      else selectLoop cost rest chosen total needed fee

/- The chosen coins, and the fee that was assumed. -/
def selectCoins (available : List Utxo) (target feePerByte outputCount : UInt64) :
    Except CliError (List Utxo × Nat) := do
  let cost := selectionCost target feePerByte outputCount
  let (needed, fee) ← cost 1
  if (available.map Utxo.outpoint).Nodup then
    selectLoop cost (descending Utxo.sats available) [] 0 needed fee
  else .error (.protocol "duplicate funding outpoint")

--- What Is Asked of a Selection

/- Coins that bring the target and the fee for so many inputs. -/
def Covers (target feePerByte outputCount : UInt64) (coins : List Utxo) : Prop :=
  ∃ size,
    estimateSize coins.length outputCount.toNat = .ok size ∧
      target.toNat + size * feePerByte.toNat ≤ weight Utxo.sats coins

structure Selected (available : List Utxo) (target feePerByte outputCount : UInt64)
    (chosen : List Utxo) (fee : Nat) : Prop where
  subset : chosen.Subperm available
  distinct : (chosen.map Utxo.outpoint).Nodup
  fee_eq :
    ∃ size, estimateSize chosen.length outputCount.toNat = .ok size ∧ fee = size * feePerByte.toNat
  covers : target.toNat + fee ≤ weight Utxo.sats chosen
  fewest :
    ∀ other,
    other.Subperm available → other ≠ [] →
      Covers target feePerByte outputCount other →
      chosen.length ≤ other.length

--- Costs That Fit

variable {found : Nat}

theorem fits_eq_some_iff {value : Nat} :
    fits value = some found ↔ value < 2 ^ 64 ∧ found = value := by
  unfold fits
  split
  · rename_i hLt
    rw [Option.some.injEq, eq_comm]
    exact ⟨fun hEq => ⟨hLt, hEq⟩, fun hBoth => hBoth.2⟩
  · rename_i hNot
    constructor
    · intro hNone
      cases hNone
    · rintro ⟨hLt, -⟩
      exact absurd hLt hNot

theorem orUsage_eq_ok_iff {message : String} {value : Option Nat} :
    orUsage message value = .ok found ↔ value = some found := by
  unfold orUsage
  cases value with
  | none => simp
  | some value => simp

variable {inputs : Nat}

theorem estimateSize_eq_ok_iff {outputs size : Nat} :
    estimateSize inputs outputs = .ok size ↔
    size < 2 ^ 64 ∧ size = inputs * 148 + outputs * 34 + 10 := by
  unfold estimateSize
  rw [orUsage_eq_ok_iff]
  simp only [Option.bind_eq_bind, Option.bind_eq_some_iff, fits_eq_some_iff]
  constructor
  · rintro ⟨_, ⟨_, rfl⟩, _, ⟨_, rfl⟩, _, ⟨_, rfl⟩, hLt, rfl⟩
    exact ⟨hLt, rfl⟩
  · rintro ⟨hLt, rfl⟩
    refine ⟨_, ⟨?_, rfl⟩, _, ⟨?_, rfl⟩, _, ⟨?_, rfl⟩, hLt, rfl⟩
    · omega
    · omega
    · omega

theorem selectionCost_eq_ok_iff {target feePerByte outputCount : UInt64} {needed fee : Nat} :
    selectionCost target feePerByte outputCount inputs = .ok (needed, fee) ↔
    ∃ size,
      estimateSize inputs outputCount.toNat = .ok size ∧ fee = size * feePerByte.toNat ∧
        needed = target.toNat + fee ∧
        needed < 2 ^ 64 := by
  unfold selectionCost
  simp only [bind_eq_ok_iff, orUsage_eq_ok_iff, fits_eq_some_iff, Except.ok.injEq, Prod.mk.injEq]
  constructor
  · rintro ⟨size, hSize, _, ⟨_, rfl⟩, _, ⟨hLt, rfl⟩, rfl, rfl⟩
    exact ⟨size, hSize, rfl, rfl, hLt⟩
  · rintro ⟨size, hSize, rfl, rfl, hLt⟩
    exact ⟨size, hSize, _, ⟨by omega, rfl⟩, _, ⟨hLt, rfl⟩, rfl, rfl⟩

/- Fewer inputs cost less, and their cost fits where that of more does. -/
theorem selectionCost_mono {target feePerByte outputCount : UInt64} {inputs' needed fee : Nat}
    (hLe : inputs' ≤ inputs)
    (hCost : selectionCost target feePerByte outputCount inputs = .ok (needed, fee)) :
    ∃ needed' fee',
    selectionCost target feePerByte outputCount inputs' = .ok (needed', fee') ∧
      needed' ≤ needed := by
  rcases selectionCost_eq_ok_iff.mp hCost with ⟨size, hSize, rfl, rfl, hLt⟩
  rcases estimateSize_eq_ok_iff.mp hSize with ⟨hFits, rfl⟩
  have hSizes :
      inputs' * 148 + outputCount.toNat * 34 + 10 ≤ inputs * 148 + outputCount.toNat * 34 + 10 := by
    omega
  have hFees := Nat.mul_le_mul_right feePerByte.toNat hSizes
  refine
    ⟨_, _, selectionCost_eq_ok_iff.mpr ⟨_, estimateSize_eq_ok_iff.mpr ⟨?_, rfl⟩, rfl, rfl, ?_⟩, ?_⟩
  · omega
  · omega
  · omega

theorem addFunding_eq_ok_iff {total : Nat} {utxo : Utxo} :
    addFunding total utxo = .ok found ↔ total + utxo.sats < 2 ^ 64 ∧ found = total + utxo.sats := by
  unfold addFunding
  rw [← fits_eq_some_iff]
  cases fits (total + utxo.sats) with
  | none => simp
  | some value => simp

--- Where the Loop Stops

section Loop

variable {target feePerByte outputCount : UInt64}

/- So many of the coins cover what so many inputs must bring. -/
def Enough (target feePerByte outputCount : UInt64) (before total : Nat) (coins : List Utxo)
    (count fee : Nat) : Prop :=
  ∃ needed,
    selectionCost target feePerByte outputCount (before + count) = .ok (needed, fee) ∧
      needed ≤ total + weight Utxo.sats (coins.take count)

/- The first count at which there is enough. -/
structure StopsAt (target feePerByte outputCount : UInt64) (before total : Nat) (coins : List Utxo)
    (count fee : Nat) : Prop where
  positive : 0 < count
  within : count ≤ coins.length
  enough : Enough target feePerByte outputCount before total coins count fee
  fits : total + weight Utxo.sats (coins.take count) < 2 ^ 64
  earliest :
    ∀ fewer fee',
    0 < fewer → fewer < count → ¬ Enough target feePerByte outputCount before total coins fewer fee'

variable {before total count fee : Nat} {utxo : Utxo} {coins : List Utxo}

theorem enough_cons :
    Enough target feePerByte outputCount before total (utxo :: coins) (count + 1) fee ↔
    Enough target feePerByte outputCount (before + 1) (total + utxo.sats) coins count fee := by
  unfold Enough
  rw [List.take_succ_cons, weight_cons, Nat.add_assoc, Nat.add_assoc, Nat.add_comm 1]

theorem enough_one :
    Enough target feePerByte outputCount before total (utxo :: coins) 1 fee ↔
    ∃ needed,
      selectionCost target feePerByte outputCount (before + 1) = .ok (needed, fee) ∧
        needed ≤ total + utxo.sats := by
  unfold Enough
  simp only [List.take_succ_cons, List.take_zero, weight_cons, weight_nil, Nat.add_zero]

/- A coin that is not enough is behind the stop. -/
theorem stopsAt_succ
    (hNot : ∀ fee', ¬ Enough target feePerByte outputCount before total (utxo :: coins) 1 fee') :
    StopsAt target feePerByte outputCount before total (utxo :: coins) (count + 1) fee ↔
    StopsAt target feePerByte outputCount (before + 1) (total + utxo.sats) coins count fee := by
  constructor
  · intro hStops
    have hPositive : 0 < count := by
      rcases Nat.eq_zero_or_pos count with hZero | hPositive
      · have hEnough := hStops.enough
        rw [hZero] at hEnough
        exact absurd hEnough (hNot fee)
      · exact hPositive
    refine ⟨hPositive, ?_, enough_cons.mp hStops.enough, ?_, ?_⟩
    · exact Nat.le_of_succ_le_succ hStops.within
    · have hFits := hStops.fits
      rw [List.take_succ_cons, weight_cons] at hFits
      omega
    · intro fewer fee' _ hLt hEnough
      apply hStops.earliest (fewer + 1) fee' (Nat.succ_pos fewer) (Nat.succ_lt_succ hLt)
      exact enough_cons.mpr hEnough
  · intro hStops
    refine ⟨Nat.succ_pos count, ?_, enough_cons.mpr hStops.enough, ?_, ?_⟩
    · exact Nat.succ_le_succ hStops.within
    · have hFits := hStops.fits
      rw [List.take_succ_cons, weight_cons]
      omega
    · intro fewer fee' hPositive hLt hEnough
      cases fewer with
      | zero => exact absurd hPositive (Nat.lt_irrefl 0)
      | succ fewer =>
        cases fewer with
        | zero => exact hNot fee' hEnough
        | succ fewer =>
          apply hStops.earliest (fewer + 1) fee' (Nat.succ_pos fewer) (Nat.lt_of_succ_lt_succ hLt)
          exact enough_cons.mp hEnough

/- At a stop the next coin is added and its cost is known. -/
theorem StopsAt.first
    (hStops : StopsAt target feePerByte outputCount before total (utxo :: coins) count fee) :
    total + utxo.sats < 2 ^ 64 ∧
    ∃ needed fee',
      selectionCost target feePerByte outputCount (before + 1) = .ok (needed, fee') := by
  have hOne : 1 ≤ count := hStops.positive
  have hWeight := weight_take_mono Utxo.sats (utxo :: coins) hOne
  rw [List.take_succ_cons, List.take_zero, weight_cons, weight_nil, Nat.add_zero] at hWeight
  have hFits := hStops.fits
  rcases hStops.enough with ⟨needed, hCost, -⟩
  have hInputs : before + 1 ≤ before + count := by omega
  rcases selectionCost_mono hInputs hCost with ⟨needed', fee', hFirst, -⟩
  exact ⟨by omega, needed', fee', hFirst⟩

/- What the loop returns, by induction over the coins left. -/
theorem selectLoop_eq_ok_iff {rest chosen found : List Utxo} {needed fee' : Nat} :
    selectLoop (selectionCost target feePerByte outputCount) rest chosen total needed fee =
      .ok (found, fee') ↔
    ∃ count,
      StopsAt target feePerByte outputCount chosen.length total rest count fee' ∧
        found = chosen ++ rest.take count := by
  induction rest generalizing chosen total needed fee with
  | nil =>
    constructor
    · intro hLoop
      cases hLoop
    · rintro ⟨count, hStops, -⟩
      have hPositive := hStops.positive
      have hWithin := hStops.within
      rw [List.length_nil] at hWithin
      omega
  | cons utxo rest ih =>
    have hLength : (chosen ++ [utxo]).length = chosen.length + 1 := by simp
    unfold selectLoop
    constructor
    · intro hLoop
      rcases bind_eq_ok_iff.mp hLoop with ⟨sum, hSum, hNext⟩
      rcases addFunding_eq_ok_iff.mp hSum with ⟨hFits, rfl⟩
      rcases bind_eq_ok_iff.mp hNext with ⟨⟨needed', fee''⟩, hCost, hRest⟩
      rw [hLength] at hCost
      dsimp only at hRest
      split at hRest
      · rename_i hEnough
        cases hRest
        refine ⟨1, ⟨Nat.one_pos, ?_, ?_, ?_, ?_⟩, rfl⟩
        · exact Nat.succ_le_succ (Nat.zero_le _)
        · exact enough_one.mpr ⟨needed', hCost, hEnough⟩
        · simpa using hFits
        · intro fewer _ hPositive hLt
          omega
      · rename_i hShort
        have hNot :
            ∀ fee',
            ¬ Enough target feePerByte outputCount chosen.length total (utxo :: rest) 1 fee' := by
          intro fee' hEnough
          rcases enough_one.mp hEnough with ⟨needed'', hCost', hLe⟩
          rw [hCost] at hCost'
          cases hCost'
          exact hShort hLe
        rcases ih.mp hRest with ⟨count, hStops, rfl⟩
        rw [hLength] at hStops
        refine ⟨count + 1, (stopsAt_succ hNot).mpr hStops, ?_⟩
        rw [List.append_assoc]
        rfl
    · rintro ⟨count, hStops, rfl⟩
      rcases hStops.first with ⟨hFits, needed', fee'', hCost⟩
      rw [bind_of_ok (addFunding_eq_ok_iff.mpr ⟨hFits, rfl⟩)]
      dsimp only
      rw [hLength, bind_of_ok hCost]
      dsimp only
      split
      · rename_i hEnough
        have hOne : count = 1 := by
          by_contra hMore
          have hPositive := hStops.positive
          apply hStops.earliest 1 fee'' Nat.one_pos (by omega)
          exact enough_one.mpr ⟨needed', hCost, hEnough⟩
        rcases hStops.enough with ⟨needed'', hSame, -⟩
        rw [hOne, hCost] at hSame
        cases hSame
        rw [hOne]
        rfl
      · rename_i hShort
        have hNot :
            ∀ fee',
            ¬ Enough target feePerByte outputCount chosen.length total (utxo :: rest) 1 fee' := by
          intro fee' hEnough
          rcases enough_one.mp hEnough with ⟨needed'', hCost', hLe⟩
          rw [hCost] at hCost'
          cases hCost'
          exact hShort hLe
        have hPositive := hStops.positive
        cases count with
        | zero => exact absurd hPositive (Nat.lt_irrefl 0)
        | succ count =>
          apply ih.mpr
          refine ⟨count, ?_, ?_⟩
          · rw [hLength]
            exact (stopsAt_succ hNot).mp hStops
          · rw [List.append_assoc]
            rfl

end Loop

--- Largest First

section Selection

variable {available : List Utxo} {target feePerByte outputCount : UInt64} {fee : Nat}

theorem selectCoins_eq_ok_iff {chosen : List Utxo} :
    selectCoins available target feePerByte outputCount = .ok (chosen, fee) ↔
    (available.map Utxo.outpoint).Nodup ∧ ∃ count,
        StopsAt target feePerByte outputCount 0 0 (descending Utxo.sats available) count fee ∧
          chosen = (descending Utxo.sats available).take count := by
  unfold selectCoins
  dsimp only
  constructor
  · intro hSelect
    rcases bind_eq_ok_iff.mp hSelect with ⟨_, _, hRest⟩
    split at hRest
    · rename_i hNodup
      rcases selectLoop_eq_ok_iff.mp hRest with ⟨count, hStops, rfl⟩
      exact ⟨hNodup, count, hStops, rfl⟩
    · cases hRest
  · rintro ⟨hNodup, count, hStops, rfl⟩
    rcases hStops.enough with ⟨needed, hCost, -⟩
    have hOne : 1 ≤ 0 + count := by
      have hPositive := hStops.positive
      omega
    rcases selectionCost_mono hOne hCost with ⟨needed', fee', hFirst, -⟩
    rw [bind_of_ok hFirst]
    dsimp only
    rw [if_pos hNodup]
    exact selectLoop_eq_ok_iff.mpr ⟨count, hStops, rfl⟩

/- As many of the largest coins as cover are enough, where their sum fits. -/
theorem enough_of_covers {coins : List Utxo} (hSubset : coins.Subperm available)
    (hCovers : Covers target feePerByte outputCount coins)
    (hFits : weight Utxo.sats ((descending Utxo.sats available).take coins.length) < 2 ^ 64) :
    ∃ fee,
    Enough target feePerByte outputCount 0 0 (descending Utxo.sats available) coins.length fee := by
  rcases hCovers with ⟨size, hSize, hBrings⟩
  have hMost := weight_le_take Utxo.sats hSubset
  refine ⟨_, _, selectionCost_eq_ok_iff.mpr ⟨size, ?_, rfl, rfl, ?_⟩, ?_⟩
  · rw [Nat.zero_add]
    exact hSize
  · omega
  · omega

theorem selected_of_stopsAt {count : Nat} (hNodup : (available.map Utxo.outpoint).Nodup)
    (hStops : StopsAt target feePerByte outputCount 0 0 (descending Utxo.sats available) count fee)
      :
    Selected available target feePerByte outputCount ((descending Utxo.sats available).take count)
      fee := by
  have hSubset := take_subperm Utxo.sats available count
  have hLength : ((descending Utxo.sats available).take count).length = count := by
    rw [List.length_take]
    exact Nat.min_eq_left hStops.within
  rcases hStops.enough with ⟨needed, hCost, hBrings⟩
  rcases selectionCost_eq_ok_iff.mp hCost with ⟨size, hSize, rfl, rfl, -⟩
  rw [Nat.zero_add] at hSize hBrings
  constructor
  · exact hSubset
  · rcases hSubset with ⟨same, hPerm, hSublist⟩
    rw [← (hPerm.map Utxo.outpoint).nodup_iff]
    exact (hSublist.map Utxo.outpoint).nodup hNodup
  · rw [hLength]
    exact ⟨size, hSize, rfl⟩
  · exact hBrings
  · intro other hOther hNonempty hCovers
    rw [hLength]
    by_contra hFewer
    have hLess : other.length < count := Nat.not_le.mp hFewer
    have hFits := weight_take_mono Utxo.sats (descending Utxo.sats available) hLess.le
    have hStopFits := hStops.fits
    rcases enough_of_covers hOther hCovers (by omega) with ⟨fee', hEnough⟩
    exact hStops.earliest other.length fee' (List.length_pos_iff.mpr hNonempty) hLess hEnough

/- The loop stops at the first count that is enough. -/
theorem exists_stopsAt {count : Nat} {coins : List Utxo} (hPositive : 0 < count)
    (hWithin : count ≤ coins.length)
    (hEnough : Enough target feePerByte outputCount 0 0 coins count fee)
    (hFits : weight Utxo.sats (coins.take count) < 2 ^ 64) :
    ∃ first fee', StopsAt target feePerByte outputCount 0 0 coins first fee' := by
  have hSome :
      ∃ first, 0 < first ∧ ∃ fee', Enough target feePerByte outputCount 0 0 coins first fee' :=
    ⟨count, hPositive, fee, hEnough⟩
  classical
  rcases Nat.find_spec hSome with ⟨hFirst, fee', hFound⟩
  have hLe : Nat.find hSome ≤ count := Nat.find_min' hSome ⟨hPositive, fee, hEnough⟩
  have hLess := weight_take_mono Utxo.sats coins hLe
  refine ⟨Nat.find hSome, fee', hFirst, hLe.trans hWithin, hFound, ?_, ?_⟩
  · omega
  · intro fewer fee'' hFewer hLt hEarlier
    exact Nat.find_min hSome hLt ⟨hFewer, fee'', hEarlier⟩

end Selection

/-
  Selection is by the largest first: what is chosen are distinct candidates that cover the target
  and the fee for them, as few as any that do, and there is a selection exactly when the
  candidates are distinct and some of them cover, where as many of the largest fit one amount.
-/
theorem selectCoins_largest_first (available : List Utxo) (target feePerByte outputCount : UInt64) :
    (∀ chosen fee,
        selectCoins available target feePerByte outputCount = .ok (chosen, fee) →
          Selected available target feePerByte outputCount chosen fee) ∧
    ((∃ chosen fee, selectCoins available target feePerByte outputCount = .ok (chosen, fee)) ↔
        (available.map Utxo.outpoint).Nodup ∧ ∃ coins,
      coins.Subperm available ∧ coins ≠ [] ∧ Covers target feePerByte outputCount coins ∧ ∀ largest,
      largest.Subperm available → largest.length = coins.length →
        weight Utxo.sats largest < 2 ^ 64) := by
  constructor
  · intro chosen fee hSelect
    rcases selectCoins_eq_ok_iff.mp hSelect with ⟨hNodup, count, hStops, rfl⟩
    exact selected_of_stopsAt hNodup hStops
  · constructor
    · rintro ⟨chosen, fee, hSelect⟩
      rcases selectCoins_eq_ok_iff.mp hSelect with ⟨hNodup, count, hStops, rfl⟩
      have hSelected := selected_of_stopsAt hNodup hStops
      have hLength : ((descending Utxo.sats available).take count).length = count := by
        rw [List.length_take]
        exact Nat.min_eq_left hStops.within
      rcases hSelected.fee_eq with ⟨size, hSize, rfl⟩
      refine ⟨hNodup, _, hSelected.subset, ?_, ⟨size, hSize, hSelected.covers⟩, ?_⟩
      · apply List.ne_nil_of_length_pos
        rw [hLength]
        exact hStops.positive
      · intro largest hLargest hSame
        have hMost := weight_le_take Utxo.sats hLargest
        rw [hSame, hLength] at hMost
        have hFits := hStops.fits
        omega
    · rintro ⟨hNodup, coins, hSubset, hNonempty, hCovers, hFits⟩
      have hWithin : coins.length ≤ (descending Utxo.sats available).length := by
        rw [(perm_descending Utxo.sats available).length_eq]
        exact hSubset.length_le
      have hLargest :=
        hFits _ (take_subperm Utxo.sats available coins.length)
          (by rw [List.length_take, Nat.min_eq_left hWithin])
      rcases enough_of_covers hSubset hCovers hLargest with ⟨fee, hEnough⟩
      rcases exists_stopsAt (List.length_pos_iff.mpr hNonempty) hWithin hEnough hLargest with
        ⟨first, fee', hStops⟩
      exact ⟨_, fee', selectCoins_eq_ok_iff.mpr ⟨hNodup, first, hStops, rfl⟩⟩

def fundingCoin (vout : UInt32) (value : UInt64) : Utxo :=
  { txid := Vector.replicate 32 0, vout, value, scriptPubkey := [] }

def halfRange : UInt64 := UInt64.ofNat (2 ^ 63)

def belowHalf : UInt64 := UInt64.ofNat (2 ^ 63 - 1)

def nearRange : UInt64 := UInt64.ofNat (2 ^ 64 - 375)

/- No coins cover nothing, and are refused; a choice whose sum fits is behind coins whose sum does
   not; and coins that are not needed may have any sum. -/
theorem largest_first_limits :
    (Covers 0 0 2 [] ∧ ∀ selected, selectCoins [] 0 0 2 ≠ .ok selected) ∧
    ((fundingCoin 0 halfRange :: [fundingCoin 2 belowHalf]).Subperm
          [fundingCoin 0 halfRange, fundingCoin 1 halfRange, fundingCoin 2 belowHalf] ∧
        Covers nearRange 1 2 [fundingCoin 0 halfRange, fundingCoin 2 belowHalf] ∧
        weight Utxo.sats [fundingCoin 0 halfRange, fundingCoin 2 belowHalf] < 2 ^ 64 ∧
        selectCoins [fundingCoin 0 halfRange, fundingCoin 1 halfRange, fundingCoin 2 belowHalf]
            nearRange 1 2 = .error (.protocol "funding total exceeds the amount range")) ∧
    (2 ^ 64 ≤ weight Utxo.sats [fundingCoin 0 halfRange, fundingCoin 1 halfRange] ∧
      selectCoins [fundingCoin 0 halfRange, fundingCoin 1 halfRange] 1000 1 2 =
        .ok ([fundingCoin 0 halfRange], 226)) := by
  refine
    ⟨⟨⟨78, rfl, by decide⟩, ?_⟩,
      ⟨?_, ⟨374, rfl, by decide +kernel⟩, by decide +kernel, by decide +kernel⟩,
      by decide +kernel, by decide +kernel⟩
  · intro selected hSelect
    cases hSelect
  · apply List.Sublist.subperm
    exact ((List.Sublist.refl _).cons _).cons_cons _

end OptnWallet
