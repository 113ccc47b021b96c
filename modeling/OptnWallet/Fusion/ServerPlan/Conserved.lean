import OptnWallet.Core.Cashaddr
import OptnWallet.Fusion.ServerPlan
import OptnWallet.Library.Overflow

/-
  What the checks of server plans conserve: every value of the inputs is in an output, a fee of a
  component or the excess, whatever the server advertised, and no operation leaves its words on
  the way.

  Main declarations:
    * `Fusion.validateAndIndexPlansIn`
    * `Fusion.Conserves`
    * `Fusion.server_plans_conserve`
-/

namespace OptnWallet.Fusion

open ServerPlan StagedUpdate WordSums Word64
open Overflow (Mode keepUnsigned keepUnsigned_eq)

--- Operations Without a Check

/- An answer of code in which nothing panics. -/
def told {α : Type} (answer : Except String α) : Except (Fault String) α :=
  answer.mapError Fault.error

def orPanicIn {α : Type} (value : Option α) : Except (Fault String) α :=
  match value with
  | some value => .ok value
  | none => .error .panic

namespace ServerPlan

def divCeilIn (mode : Mode) (value divisor : UInt64) : Except (Fault String) UInt64 :=
  if 0 < value % divisor then orPanicIn (keepUnsigned mode ((value / divisor).toNat + 1))
  else .ok (value / divisor)

def componentFeeIn (mode : Mode) (size feerate : UInt64) : Except (Fault String) UInt64 := do
  let product ← told (okOr "component fee overflow" (checkedMul size feerate))
  divCeilIn mode product 1000

def addInputFeeIn (mode : Mode) (feerate sum : UInt64) (pubkey : List UInt8) :
    Except (Fault String) UInt64 := do
  let size ← orPanicIn (keepUnsigned mode (108 + pubkey.length))
  let fee ← componentFeeIn mode size feerate
  told (okOr "fusion input fee overflow" (checkedAdd sum fee))

end ServerPlan

variable (mode : Mode)

/- The checks as a build runs them. -/
def validateAndIndexPlansIn (hello : ServerHello) (inputPubkeys : List (List UInt8))
    (inputValues : List UInt64) (outputScripts : List (List UInt8)) (plans : List FusionTierPlan) :
    Except (Fault String) (BTreeMap UInt64 FusionTierPlan) := do
  told (validateServerHello hello)
  if inputPubkeys = [] ∨ inputPubkeys.length ≠ inputValues.length then
    told (.error "invalid fusion input plan")
  else if inputPubkeys.any (fun key => !isCompressedKey key) then
    told (.error "server fusion requires compressed P2PKH input keys")
  else if outputScripts = [] ∨
      outputScripts.any (fun script => !isStandardP2pkh script)
      then
    told (.error "server fusion requires fresh standard P2PKH output scripts")
  else if plans = [] then told (.error "no feasible server fusion tier plans")
  else do
    let maxOutputs := hello.numComponents.toNat - inputPubkeys.length
    if maxOutputs = 0 then told (.error "too many inputs for the server component count")
    else do
      let minOutputs := max (minTxComponents - inputPubkeys.dedup.length) 1
      if maxOutputs < minOutputs then
        told (.error "too few distinct inputs for the required output count")
      else do
        let sumIn ← told (okOr "fusion input value overflow" (checkedSum 0 inputValues))
        let inputFees ← inputPubkeys.foldlM (addInputFeeIn mode hello.componentFeerate) 0
        let outputComponentFee ← componentFeeIn mode 34 hello.componentFeerate
        let serverTiers ← told (canonicalTiers hello.tiers)
        let indexed ← told
            (plans.foldlM
              (indexPlan
                { serverTiers
                  minOutputs
                  maxOutputs
                  sumIn
                  inputFees
                  outputComponentFee
                  minExcessFee := hello.minExcessFee
                  maxAllowedExcess := min hello.maxExcessFee maxExcessFee })
              (BTreeMap.new, 0))
        if outputScripts.length ≠ indexed.2 then
          told (.error ("fresh output script pool does not match the " ++ "largest tier plan"))
        else .ok indexed.1

theorem told_bind {α β : Type} (answer : Except String α) (next : α → Except String β) :
    told (answer >>= next) = (told answer >>= fun a => told (next a)) := by
  cases answer with
  | error e => rfl
  | ok a => rfl

theorem divCeilIn_eq {value divisor : UInt64} (hDivisor : 1 < divisor.toNat) :
    divCeilIn mode value divisor = .ok (divCeil value divisor) := by
  have hHalf : value.toNat / divisor.toNat ≤ value.toNat / 2 :=
    Nat.div_le_div_left hDivisor (by decide)
  have hValue := value.toNat_lt
  have hRange : (value / divisor).toNat + 1 < 2 ^ 64 := by
    rw [UInt64.toNat_div]
    omega
  have hNext : UInt64.ofNat ((value / divisor).toNat + 1) = value / divisor + 1 := by
    apply UInt64.toNat_inj.mp
    rw [UInt64.toNat_ofNat_of_lt' hRange, UInt64.toNat_add, UInt64.toNat_one,
      Nat.mod_eq_of_lt hRange]
  unfold divCeilIn divCeil
  split
  · rw [keepUnsigned_eq hRange, hNext]
    rfl
  · rfl

theorem componentFeeIn_eq (size feerate : UInt64) :
    componentFeeIn mode size feerate = told (ServerPlan.componentFee size feerate) := by
  unfold componentFeeIn ServerPlan.componentFee
  rw [told_bind]
  congr 1
  funext product
  exact divCeilIn_eq mode (by decide)

theorem addInputFeeIn_eq (feerate sum : UInt64) {pubkey : List UInt8} (hKey : pubkey.length = 33) :
    addInputFeeIn mode feerate sum pubkey = told (addInputFee feerate sum pubkey) := by
  have hRange : 108 + pubkey.length < 2 ^ 64 := by omega
  have hSize : UInt64.ofNat (108 + pubkey.length) = 108 + UInt64.ofNat pubkey.length := by
    rw [hKey]
    rfl
  unfold addInputFeeIn addInputFee
  rw [keepUnsigned_eq hRange, hSize, told_bind, ← componentFeeIn_eq mode]
  rfl

/- By induction over the keys, which have one length. -/
theorem inputFeesIn_eq (feerate : UInt64) {keys : List (List UInt8)}
    (hKeys : ∀ key ∈ keys, key.length = 33) (sum : UInt64) :
    keys.foldlM (addInputFeeIn mode feerate) sum =
      told (keys.foldlM (addInputFee feerate) sum) := by
  induction keys generalizing sum with
  | nil => rfl
  | cons key keys ih =>
    rw [List.forall_mem_cons] at hKeys
    rw [List.foldlM_cons, List.foldlM_cons, told_bind, addInputFeeIn_eq mode feerate sum hKeys.1]
    congr 1
    funext next
    exact ih hKeys.2 next

theorem length_of_isCompressedKey {key : List UInt8} (hKey : isCompressedKey key = true) :
    key.length = 33 := by
  unfold isCompressedKey at hKey
  rw [Bool.and_eq_true, beq_iff_eq] at hKey
  exact hKey.1

/- Each build answers what the exact numbers say. -/
theorem validateAndIndexPlansIn_eq (hello : ServerHello) (inputPubkeys : List (List UInt8))
    (inputValues : List UInt64) (outputScripts : List (List UInt8)) (plans : List FusionTierPlan) :
    validateAndIndexPlansIn mode hello inputPubkeys inputValues outputScripts plans =
      told (validateAndIndexPlans hello inputPubkeys inputValues outputScripts plans) := by
  unfold validateAndIndexPlansIn validateAndIndexPlans
  rw [told_bind]
  congr 1
  funext done
  split
  · rfl
  split
  · rfl
  rename_i hKeys
  have hLengths : ∀ key ∈ inputPubkeys, key.length = 33 :=
    fun key hMem => length_of_isCompressedKey (not_any_not hKeys key hMem)
  split
  · rfl
  split
  · rfl
  dsimp only
  split
  · rfl
  split
  · rfl
  rw [inputFeesIn_eq mode _ hLengths, componentFeeIn_eq]
  simp only [told_bind]
  congr 1
  funext sumIn
  congr 1
  funext inputFees
  congr 1
  funext outputComponentFee
  congr 1
  funext serverTiers
  congr 1
  funext indexed
  split
  · rfl
  · rfl

--- Plans That Are Indexed

namespace ServerPlan

/- What is known of each plan that was indexed. -/
structure Checked (bounds : Bounds) (plan : FusionTierPlan) : Prop where
  advertised : plan.tier ∈ bounds.serverTiers
  outputs_ge : bounds.minOutputs ≤ plan.outputValues.length
  outputs_le : plan.outputValues.length ≤ bounds.maxOutputs
  minimum : ∀ value ∈ plan.outputValues, minOutput ≤ value
  excess_ge : bounds.minExcessFee ≤ plan.excessFee
  excess_le : plan.excessFee ≤ bounds.maxAllowedExcess
  fee_le : bounds.sumIn.toNat ≤ total plan.outputValues + maxFee.toNat
  balance :
    bounds.sumIn.toNat = total plan.outputValues + bounds.inputFees.toNat +
        bounds.outputComponentFee.toNat * plan.outputValues.length + plan.excessFee.toNat

variable {bounds : Bounds}

theorem checkFees_limits {plan : FusionTierPlan} (hCheck : checkFees bounds plan = .ok ()) :
    bounds.minExcessFee ≤ plan.excessFee ∧
    bounds.sumIn.toNat ≤ total plan.outputValues + maxFee.toNat := by
  rcases bind_eq_ok_iff.mp hCheck with ⟨sumOut, hOut, hCheck⟩
  rcases bind_eq_ok_iff.mp hCheck with ⟨totalFee, hTotal, hCheck⟩
  rcases bind_eq_ok_iff.mp hCheck with ⟨outFees, -, hCheck⟩
  rcases bind_eq_ok_iff.mp hCheck with ⟨required, -, hCheck⟩
  rcases bind_eq_ok_iff.mp hCheck with ⟨excess, -, hCheck⟩
  rw [okOr_eq_ok_iff] at hOut hTotal
  have hSumOut := checkedSum_eq_some hOut
  rw [UInt64.toNat_zero, Nat.zero_add] at hSumOut
  rcases checkedSub_eq_some hTotal with ⟨hLe, hFee⟩
  split at hCheck
  · cases hCheck
  split at hCheck
  · cases hCheck
  rename_i hAllowed
  rw [not_or] at hAllowed
  split at hCheck
  · cases hCheck
  rename_i hLimit
  rw [UInt64.not_lt, UInt64.le_iff_toNat_le] at hLimit
  exact ⟨UInt64.not_lt.mp hAllowed.1, by omega⟩

theorem indexPlan_ok (hOutputs : bounds.maxOutputs < 2 ^ 64) {state next : Indexed}
    {plan : FusionTierPlan} (hStep : indexPlan bounds state plan = .ok next) :
    Checked bounds plan ∧
    state.1.get? plan.tier = none ∧
    next = (state.1.insert plan.tier plan, max state.2 plan.outputValues.length) := by
  unfold indexPlan at hStep
  split at hStep
  · cases hStep
  rename_i hTier
  split at hStep
  · cases hStep
  rename_i hNew
  split at hStep
  · cases hStep
  rename_i hCount
  rw [not_or] at hCount
  split at hStep
  · cases hStep
  rename_i hMinimum
  rcases bind_eq_ok_iff.mp hStep with ⟨done, hFees, hStep⟩
  have hSpec := checkFees_spec (by omega) hFees
  have hLimits := checkFees_limits hFees
  refine ⟨?_, ?_, (Except.ok.inj hStep).symm⟩
  · refine
      { advertised := ?_
        outputs_ge := by omega
        outputs_le := by omega
        minimum := ?_
        excess_ge := hLimits.1
        excess_le := hSpec.1
        fee_le := hLimits.2
        balance := hSpec.2 }
    · rw [Bool.not_eq_true', Bool.not_eq_false, List.contains_iff_mem] at hTier
      exact hTier
    · intro value hMem
      by_contra hLess
      apply hMinimum
      rw [List.any_eq_true]
      exact ⟨value, hMem, decide_eq_true (UInt64.not_le.mp hLess)⟩
  · rw [Bool.not_eq_true, Option.isSome_eq_false_iff, Option.isNone_iff_eq_none] at hNew
    exact hNew

/- What a run over plans adds to what was indexed before. -/
structure IndexedFrom (bounds : Bounds) (state : Indexed) (plans : List FusionTierPlan)
    (indexed : Indexed) : Prop where
  each : ∀ plan ∈ plans, Checked bounds plan
  once : (plans.map FusionTierPlan.tier).Nodup
  fresh : ∀ plan ∈ plans, state.1.get? plan.tier = none
  get_iff :
    ∀ tier plan,
    indexed.1.get? tier = some plan ↔
      (plan ∈ plans ∧ plan.tier = tier) ∨ state.1.get? tier = some plan
  largest_ge : state.2 ≤ indexed.2
  pool : ∀ plan ∈ plans, plan.outputValues.length ≤ indexed.2

/- By induction over the plans. -/
theorem indexed_from (hOutputs : bounds.maxOutputs < 2 ^ 64) {plans : List FusionTierPlan}
    {state indexed : Indexed} (hIndexed : plans.foldlM (indexPlan bounds) state = .ok indexed) :
    IndexedFrom bounds state plans indexed := by
  induction plans generalizing state with
  | nil =>
    cases hIndexed
    exact
      { each := List.forall_mem_nil _
        once := List.nodup_nil
        fresh := List.forall_mem_nil _
        get_iff := by simp
        largest_ge := le_refl _
        pool := List.forall_mem_nil _ }
  | cons plan plans ih =>
    rw [List.foldlM_cons] at hIndexed
    rcases bind_eq_ok_iff.mp hIndexed with ⟨next, hStep, hRest⟩
    rcases indexPlan_ok hOutputs hStep with ⟨hChecked, hNew, rfl⟩
    have hIh := ih hRest
    have hFresh : ∀ other ∈ plans, other.tier ≠ plan.tier ∧ state.1.get? other.tier = none := by
      intro other hMem
      have hNone := hIh.fresh other hMem
      rw [BTreeMap.get?_insert] at hNone
      split at hNone
      · cases hNone
      · rename_i hOther
        exact ⟨hOther, hNone⟩
    refine
      { each := List.forall_mem_cons.mpr ⟨hChecked, hIh.each⟩
        once := ?_
        fresh := List.forall_mem_cons.mpr ⟨hNew, fun other hMem => (hFresh other hMem).2⟩
        get_iff := ?_
        largest_ge := (Nat.le_max_left _ _).trans hIh.largest_ge
        pool := List.forall_mem_cons.mpr ⟨(Nat.le_max_right _ _).trans hIh.largest_ge, hIh.pool⟩ }
    · rw [List.map_cons, List.nodup_cons]
      refine ⟨?_, hIh.once⟩
      intro hMem
      rcases List.mem_map.mp hMem with ⟨other, hOther, hSame⟩
      exact (hFresh other hOther).1 hSame
    · intro tier found
      rw [hIh.get_iff]
      rw [BTreeMap.get?_insert, List.mem_cons]
      split
      · rename_i hTier
        subst hTier
        rw [hNew, Option.some.injEq]
        constructor
        · rintro (⟨hMem, hSame⟩ | rfl)
          · exact Or.inl ⟨Or.inr hMem, hSame⟩
          · exact Or.inl ⟨Or.inl rfl, rfl⟩
        · rintro (⟨rfl | hMem, hSame⟩ | hNone)
          · exact Or.inr rfl
          · exact Or.inl ⟨hMem, hSame⟩
          · cases hNone
      · rename_i hOther
        constructor
        · rintro (⟨hMem, hSame⟩ | hOld)
          · exact Or.inl ⟨Or.inr hMem, hSame⟩
          · exact Or.inr hOld
        · rintro (⟨rfl | hMem, hSame⟩ | hOld)
          · exact absurd hSame.symm hOther
          · exact Or.inl ⟨hMem, hSame⟩
          · exact Or.inr hOld

theorem canonicalTiers_subset {tiers canonical : List UInt64}
    (hCanonical : canonicalTiers tiers = .ok canonical) : ∀ tier ∈ canonical, tier ∈ tiers := by
  unfold canonicalTiers at hCanonical
  split at hCanonical
  · cases hCanonical
  split at hCanonical
  · cases hCanonical
  dsimp only at hCanonical
  split at hCanonical
  · cases hCanonical
  cases hCanonical
  intro tier hMem
  have hSorted := (List.destutter_sublist _ _).subset hMem
  exact List.mem_mergeSort.mp hSorted

end ServerPlan

/- What a plan that was accepted conserves, and within which limits of the server and of the wallet.
   -/
structure Conserves (hello : ServerHello) (inputPubkeys : List (List UInt8))
    (inputValues : List UInt64) (outputScripts : List (List UInt8)) (plan : FusionTierPlan) :
    Prop where
  advertised : plan.tier ∈ hello.tiers
  balance :
    total inputValues =
      total plan.outputValues + inputPubkeys.length * feeOf hello.componentFeerate 141 +
        feeOf hello.componentFeerate 34 * plan.outputValues.length + plan.excessFee.toNat
  excess_server : hello.minExcessFee ≤ plan.excessFee ∧ plan.excessFee ≤ hello.maxExcessFee
  excess_wallet : plan.excessFee ≤ maxExcessFee
  fee_wallet : total inputValues ≤ total plan.outputValues + maxFee.toNat
  privacy :
    minTxComponents ≤ plan.outputValues.length + inputPubkeys.dedup.length ∧
    1 ≤ plan.outputValues.length
  components : inputPubkeys.length + plan.outputValues.length ≤ hello.numComponents.toNat
  pool : plan.outputValues.length ≤ outputScripts.length
  minimum : ∀ value ∈ plan.outputValues, minOutput ≤ value

/-
  Whatever the hello, the wallet and the renderer hold, no build panics over the plans, and where
  they are accepted each of them is there once, under its tier, and conserves value.
-/
theorem server_plans_conserve (mode : Mode) (hello : ServerHello) (inputPubkeys : List (List UInt8))
    (inputValues : List UInt64) (outputScripts : List (List UInt8)) (plans : List FusionTierPlan) :
    validateAndIndexPlansIn mode hello inputPubkeys inputValues outputScripts plans ≠
      .error .panic ∧
    ∀ indexed,
      validateAndIndexPlansIn mode hello inputPubkeys inputValues outputScripts plans =
          .ok indexed →
        (plans.map FusionTierPlan.tier).Nodup ∧
          (∀ tier plan, indexed.get? tier = some plan ↔ plan ∈ plans ∧ plan.tier = tier) ∧
          ∀ plan ∈ plans, Conserves hello inputPubkeys inputValues outputScripts plan := by
  rw [validateAndIndexPlansIn_eq]
  constructor
  · cases validateAndIndexPlans hello inputPubkeys inputValues outputScripts plans with
    | error e =>
      intro hPanic
      cases hPanic
    | ok indexed =>
      intro hPanic
      cases hPanic
  · intro indexed hAccepts
    unfold told at hAccepts
    rw [mapError_eq_ok_iff] at hAccepts
    rcases bind_eq_ok_iff.mp hAccepts with ⟨done, hHello, hAccepts⟩
    split at hAccepts
    · cases hAccepts
    split at hAccepts
    · cases hAccepts
    rename_i hKeys
    split at hAccepts
    · cases hAccepts
    split at hAccepts
    · cases hAccepts
    dsimp only at hAccepts
    split at hAccepts
    · cases hAccepts
    split at hAccepts
    · cases hAccepts
    rcases bind_eq_ok_iff.mp hAccepts with ⟨sumIn, hSum, hAccepts⟩
    rcases bind_eq_ok_iff.mp hAccepts with ⟨inputFees, hFees, hAccepts⟩
    rcases bind_eq_ok_iff.mp hAccepts with ⟨outputFee, hOutputFee, hAccepts⟩
    rcases bind_eq_ok_iff.mp hAccepts with ⟨tiers, hTiers, hAccepts⟩
    rcases bind_eq_ok_iff.mp hAccepts with ⟨state, hIndexed, hAccepts⟩
    split at hAccepts
    · cases hAccepts
    rename_i hPool
    rw [not_not] at hPool
    cases hAccepts
    have hCount := (hello_bounds hHello).2
    unfold maxComponents at hCount
    have hFrom := indexed_from (by dsimp only; omega) hIndexed
    have hLengths : ∀ key ∈ inputPubkeys, key.length = 33 :=
      fun key hMem => length_of_isCompressedKey (not_any_not hKeys key hMem)
    have hSumIn := checkedSum_eq_some (okOr_eq_ok_iff.mp hSum)
    rw [UInt64.toNat_zero, Nat.zero_add] at hSumIn
    have hInputFees := toNat_inputFees hLengths hFees
    rw [UInt64.toNat_zero, Nat.zero_add] at hInputFees
    have hOutFee : outputFee.toNat = feeOf _ 34 := toNat_componentFee hOutputFee
    refine ⟨hFrom.once, ?_, ?_⟩
    · intro tier plan
      rw [hFrom.get_iff, BTreeMap.get?_new]
      simp
    · intro plan hMem
      have hChecked := hFrom.each plan hMem
      have hBalance := hChecked.balance
      have hFee := hChecked.fee_le
      have hLeast := hChecked.outputs_ge
      have hMost := hChecked.outputs_le
      have hLargest := hFrom.pool plan hMem
      dsimp only at hBalance hFee hLeast hMost
      rw [hSumIn, hInputFees, hOutFee] at hBalance
      rw [hSumIn] at hFee
      exact
        { advertised := canonicalTiers_subset hTiers _ hChecked.advertised
          balance := hBalance
          excess_server := ⟨hChecked.excess_ge, hChecked.excess_le.trans (min_le_left _ _)⟩
          excess_wallet := hChecked.excess_le.trans (min_le_right _ _)
          fee_wallet := hFee
          privacy := by omega
          components := by omega
          pool := by omega
          minimum := hChecked.minimum }

end OptnWallet.Fusion
