import Mathlib.Data.List.Destutter
import OptnWallet.Library.BTreeMap
import OptnWallet.Library.StagedUpdate
import OptnWallet.Library.Words

/-
  What a server of fusion rounds advertises, and the plans of the wallet for its tiers, which are
  checked before anything is registered.

  Main declarations:
    * `Fusion.validateServerHello`
    * `Fusion.validateAndIndexPlans`
    * `Fusion.Accepted` and `Fusion.accepted_of_validate`
-/

--- Advertisements

namespace OptnWallet.Fusion

open WordSums Word64

def maxComponentFeerate : UInt64 := 5000

def maxExcessFee : UInt64 := 10000

def maxComponents : Nat := 40

def maxFee : UInt64 := 45000

def minTxComponents : Nat := 11

def minOutput : UInt64 := 10000

def maxTiers : Nat := 128

structure ServerHello where
  tiers : List UInt64
  numComponents : UInt32
  componentFeerate : UInt64
  minExcessFee : UInt64
  maxExcessFee : UInt64
deriving DecidableEq

structure FusionTierPlan where
  tier : UInt64
  outputValues : List UInt64
  excessFee : UInt64
deriving DecidableEq

/- Tiers are sorted, and none is there twice. -/
def canonicalTiers (tiers : List UInt64) : Except String (List UInt64) :=
  if tiers = [] ∨ maxTiers < tiers.length then .error "server advertised an invalid number of tiers"
  else if tiers.any (fun tier => decide (tier < minOutput)) then
    .error "server advertised an invalid tier"
  else
    let canonical :=
      (tiers.mergeSort (fun left right => decide (left ≤ right))).destutter
        (fun left right => left ≠ right)
    if canonical.length ≠ tiers.length then .error "server advertised duplicate tiers"
    else .ok canonical

def validateServerHello (hello : ServerHello) : Except String Unit := do
  let _ ← canonicalTiers hello.tiers
  if maxComponentFeerate < hello.componentFeerate then
    .error "excessive component feerate from server"
  else if 400 < hello.minExcessFee then .error "excessive min excess fee from server"
  else if hello.maxExcessFee < hello.minExcessFee then .error "bad config on server: fees"
  else if hello.numComponents < 17 then .error "bad config on server: too few components"
  else if maxComponents < hello.numComponents.toNat then
    .error "bad config on server: too many components"
  else .ok ()

--- Fees

/- The value, or the error of the caller. -/
def okOr {α : Type} (error : String) (value : Option α) : Except String α :=
  match value with
  | some value => .ok value
  | none => .error error

namespace ServerPlan

def componentFee (size feerate : UInt64) : Except String UInt64 := do
  let product ← okOr "component fee overflow" (checkedMul size feerate)
  .ok (divCeil product 1000)

--- Plans

def isStandardP2pkh (script : List UInt8) : Bool :=
  script.length == 25 && script.take 3 == [0x76, 0xa9, 0x14] && script.drop 23 == [0x88, 0xac]

def isCompressedKey (pubkey : List UInt8) : Bool :=
  pubkey.length == 33 && (pubkey.head? == some 0x02 || pubkey.head? == some 0x03)

def addInputFee (feerate : UInt64) (sum : UInt64) (pubkey : List UInt8) : Except String UInt64 := do
  let fee ← componentFee (108 + UInt64.ofNat pubkey.length) feerate
  okOr "fusion input fee overflow" (checkedAdd sum fee)

/- What every plan is checked against. -/
structure Bounds where
  serverTiers : List UInt64
  minOutputs : Nat
  maxOutputs : Nat
  sumIn : UInt64
  inputFees : UInt64
  outputComponentFee : UInt64
  minExcessFee : UInt64
  maxAllowedExcess : UInt64

def tierError (tier : UInt64) (error : String) : String :=
  "tier " ++ toString tier ++ " " ++ error

/- The fees of a plan: they are taken from what it leaves of the inputs. -/
def checkFees (bounds : Bounds) (plan : FusionTierPlan) : Except String Unit := do
  let sumOut ← okOr "fusion output value overflow" (checkedSum 0 plan.outputValues)
  let totalFee ←
    okOr (tierError plan.tier "spends more than its inputs") (checkedSub bounds.sumIn sumOut)
  let outputFees ← okOr "fusion output fee overflow"
      (checkedMul bounds.outputComponentFee (UInt64.ofNat plan.outputValues.length))
  let requiredComponentFees ←
    okOr "fusion component fee overflow" (checkedAdd bounds.inputFees outputFees)
  let derivedExcess ← okOr (tierError plan.tier "underpays component fees")
      (checkedSub totalFee requiredComponentFees)
  if derivedExcess ≠ plan.excessFee then
    .error (tierError plan.tier "has an inconsistent excess fee")
  else if plan.excessFee < bounds.minExcessFee ∨ bounds.maxAllowedExcess < plan.excessFee then
    .error (tierError plan.tier "exceeds the allowed excess fee")
  else if maxFee < totalFee then .error (tierError plan.tier "exceeds the wallet fee limit")
  else .ok ()

/- The plans that were indexed, and the number of outputs of the largest. -/
abbrev Indexed := BTreeMap UInt64 FusionTierPlan × Nat

def indexPlan (bounds : Bounds) (state : Indexed) (plan : FusionTierPlan) :
    Except String Indexed := do
  if !bounds.serverTiers.contains plan.tier then
    .error (tierError plan.tier "was not advertised by the live server")
  else if (state.1.get? plan.tier).isSome then .error "duplicate server fusion tier plan"
  else if plan.outputValues.length < bounds.minOutputs ∨
        bounds.maxOutputs < plan.outputValues.length then
    .error (tierError plan.tier "has an unsafe output count")
  else if plan.outputValues.any
        (fun value => decide (value < minOutput)) then
    .error (tierError plan.tier "creates an output below the wallet minimum")
  else do
    checkFees bounds plan
    .ok (state.1.insert plan.tier plan, max state.2 plan.outputValues.length)

end ServerPlan

open ServerPlan in
def validateAndIndexPlans (hello : ServerHello) (inputPubkeys : List (List UInt8))
    (inputValues : List UInt64) (outputScripts : List (List UInt8)) (plans : List FusionTierPlan) :
    Except String (BTreeMap UInt64 FusionTierPlan) := do
  validateServerHello hello
  if inputPubkeys = [] ∨ inputPubkeys.length ≠ inputValues.length then
    .error "invalid fusion input plan"
  else if inputPubkeys.any (fun key => !isCompressedKey key) then
    .error "server fusion requires compressed P2PKH input keys"
  else if outputScripts = [] ∨
      outputScripts.any (fun script => !isStandardP2pkh script)
      then
    .error "server fusion requires fresh standard P2PKH output scripts"
  else if plans = [] then .error "no feasible server fusion tier plans"
  else do
    let maxOutputs := hello.numComponents.toNat - inputPubkeys.length
    -- A difference below zero and zero have one error.
    if maxOutputs = 0 then .error "too many inputs for the server component count"
    else do
      let minOutputs := max (minTxComponents - inputPubkeys.dedup.length) 1
      if maxOutputs < minOutputs then .error "too few distinct inputs for the required output count"
      else do
        let sumIn ← okOr "fusion input value overflow" (checkedSum 0 inputValues)
        let inputFees ← inputPubkeys.foldlM (addInputFee hello.componentFeerate) 0
        let outputComponentFee ← ServerPlan.componentFee 34 hello.componentFeerate
        let serverTiers ← canonicalTiers hello.tiers
        let indexed ← plans.foldlM
            (indexPlan
              { serverTiers
                minOutputs
                maxOutputs
                sumIn
                inputFees
                outputComponentFee
                minExcessFee := hello.minExcessFee
                maxAllowedExcess := min hello.maxExcessFee maxExcessFee })
            (BTreeMap.new, 0)
        if outputScripts.length ≠ indexed.2 then
          .error ("fresh output script pool does not match the " ++ "largest tier plan")
        else .ok indexed.1

--- What Is Accepted

open StagedUpdate

/- The fee of a component as a number. -/
def feeOf (feerate : UInt64) (size : Nat) : Nat := (size * feerate.toNat + 999) / 1000

theorem okOr_eq_ok_iff {α : Type} {error : String} {value : Option α} {a : α} :
    okOr error value = .ok a ↔ value = some a := by
  cases value with
  | none => simp [okOr]
  | some value => simp [okOr]

theorem toNat_divCeil_fee (product : UInt64) :
    (divCeil product 1000).toNat = (product.toNat + 999) / 1000 := toNat_divCeil (by decide)

namespace ServerPlan

theorem toNat_componentFee {size feerate fee : UInt64}
    (hFee : componentFee size feerate = .ok fee) : fee.toNat = feeOf feerate size.toNat := by
  unfold componentFee at hFee
  rcases bind_eq_ok_iff.mp hFee with ⟨product, hProduct, hFee⟩
  rw [← Except.ok.inj hFee, toNat_divCeil_fee, checkedMul_eq_some (okOr_eq_ok_iff.mp hProduct)]
  rfl

/- By induction over the keys, which have one length. -/
theorem toNat_inputFees {feerate start fees : UInt64} {keys : List (List UInt8)}
    (hKeys : ∀ key ∈ keys, key.length = 33)
    (hFees : keys.foldlM (addInputFee feerate) start = .ok fees) :
    fees.toNat = start.toNat + keys.length * feeOf feerate 141 := by
  induction keys generalizing start with
  | nil =>
    cases hFees
    rw [List.length_nil, Nat.zero_mul, Nat.add_zero]
  | cons key keys ih =>
    rw [List.forall_mem_cons] at hKeys
    rw [List.foldlM_cons] at hFees
    rcases bind_eq_ok_iff.mp hFees with ⟨next, hNext, hFees⟩
    unfold addInputFee at hNext
    rcases bind_eq_ok_iff.mp hNext with ⟨fee, hFee, hNext⟩
    rw [hKeys.1] at hFee
    have hHere : fee.toNat = feeOf feerate 141 := toNat_componentFee hFee
    rw [ih hKeys.2 hFees, checkedAdd_eq_some (okOr_eq_ok_iff.mp hNext), hHere, List.length_cons,
      Nat.succ_mul]
    omega

/- What the checks of one plan establish. -/
structure Within (bounds : Bounds) (plan : FusionTierPlan) : Prop where
  outputs_le : plan.outputValues.length ≤ bounds.maxOutputs
  excess_le : plan.excessFee ≤ bounds.maxAllowedExcess
  balance :
    bounds.sumIn.toNat = total plan.outputValues + bounds.inputFees.toNat +
        bounds.outputComponentFee.toNat * plan.outputValues.length + plan.excessFee.toNat

theorem checkFees_spec {bounds : Bounds} {plan : FusionTierPlan}
    (hLength : plan.outputValues.length < 2 ^ 64) (hCheck : checkFees bounds plan = .ok ()) :
    plan.excessFee ≤ bounds.maxAllowedExcess ∧
    bounds.sumIn.toNat = total plan.outputValues + bounds.inputFees.toNat +
        bounds.outputComponentFee.toNat * plan.outputValues.length + plan.excessFee.toNat := by
  unfold checkFees at hCheck
  rcases bind_eq_ok_iff.mp hCheck with ⟨sumOut, hOut, hCheck⟩
  rcases bind_eq_ok_iff.mp hCheck with ⟨totalFee, hTotal, hCheck⟩
  rcases bind_eq_ok_iff.mp hCheck with ⟨outFees, hFees, hCheck⟩
  rcases bind_eq_ok_iff.mp hCheck with ⟨required, hReq, hCheck⟩
  rcases bind_eq_ok_iff.mp hCheck with ⟨excess, hExcess, hCheck⟩
  rw [okOr_eq_ok_iff] at hOut hTotal hFees hReq hExcess
  have hSumOut := checkedSum_eq_some hOut
  rw [UInt64.toNat_zero, Nat.zero_add] at hSumOut
  rcases checkedSub_eq_some hTotal with ⟨hLe, hTotal⟩
  have hOutFees := checkedMul_eq_some hFees
  rw [UInt64.toNat_ofNat_of_lt' hLength] at hOutFees
  have hRequired := checkedAdd_eq_some hReq
  rcases checkedSub_eq_some hExcess with ⟨hPays, hExcess⟩
  split at hCheck
  · cases hCheck
  · rename_i hSame
    split at hCheck
    · cases hCheck
    · rename_i hAllowed
      rw [not_or] at hAllowed
      rw [not_not] at hSame
      rw [hSame] at hExcess
      exact ⟨UInt64.not_lt.mp hAllowed.2, by omega⟩

/- Every plan that is indexed passed the checks, and no plan has more outputs than the largest. -/
theorem indexed_within {bounds : Bounds} (hOutputs : bounds.maxOutputs < 2 ^ 64)
    {plans : List FusionTierPlan} {indexed : Indexed}
    (hIndexed : plans.foldlM (indexPlan bounds) (BTreeMap.new, 0) = .ok indexed) :
    ∀ tier plan,
    indexed.1.get? tier = some plan →
      Within bounds plan ∧ plan.outputValues.length ≤ indexed.2 := by
  refine @foldlM_keeps Indexed FusionTierPlan String (indexPlan bounds)
    (fun state => ∀ tier plan,
        state.1.get? tier = some plan → Within bounds plan ∧ plan.outputValues.length ≤ state.2) ?_
    plans (BTreeMap.new, 0) indexed ?_ hIndexed
  · intro state plan next hInv hStep
    unfold indexPlan at hStep
    split at hStep
    · cases hStep
    split at hStep
    · cases hStep
    split at hStep
    · cases hStep
    rename_i hCount
    rw [not_or] at hCount
    split at hStep
    · cases hStep
    rcases bind_eq_ok_iff.mp hStep with ⟨done, hFees, hStep⟩
    cases hStep
    intro tier other hGet
    dsimp only at hGet ⊢
    rw [BTreeMap.get?_insert] at hGet
    split at hGet
    · cases hGet
      have hSpec := checkFees_spec (by omega) hFees
      exact ⟨⟨by omega, hSpec.1, hSpec.2⟩, Nat.le_max_right _ _⟩
    · rcases hInv tier other hGet with ⟨hWithin, hLe⟩
      exact ⟨hWithin, hLe.trans (Nat.le_max_left _ _)⟩
  · intro tier plan hGet
    rw [BTreeMap.get?_new] at hGet
    cases hGet

end ServerPlan

/- What is known of a plan that was accepted. -/
structure Accepted (hello : ServerHello) (inputPubkeys : List (List UInt8))
    (inputValues : List UInt64) (outputScripts : List (List UInt8)) (plan : FusionTierPlan) :
    Prop where
  feerate_le : hello.componentFeerate ≤ maxComponentFeerate
  components_le : hello.numComponents.toNat ≤ maxComponents
  keys : ∀ key ∈ inputPubkeys, key.length = 33
  scripts : ∀ script ∈ outputScripts, script.length = 25
  values : inputPubkeys.length = inputValues.length
  count : inputPubkeys.length + plan.outputValues.length ≤ hello.numComponents.toNat
  pool : plan.outputValues.length ≤ outputScripts.length
  excess_le : plan.excessFee ≤ maxExcessFee
  balance :
    total inputValues =
      total plan.outputValues + inputPubkeys.length * feeOf hello.componentFeerate 141 +
        feeOf hello.componentFeerate 34 * plan.outputValues.length + plan.excessFee.toNat

theorem hello_bounds {hello : ServerHello} (hHello : validateServerHello hello = .ok ()) :
    hello.componentFeerate ≤ maxComponentFeerate ∧ hello.numComponents.toNat ≤ maxComponents := by
  unfold validateServerHello at hHello
  rcases bind_eq_ok_iff.mp hHello with ⟨tiers, -, hHello⟩
  split at hHello
  · cases hHello
  rename_i hFeerate
  split at hHello
  · cases hHello
  split at hHello
  · cases hHello
  split at hHello
  · cases hHello
  split at hHello
  · cases hHello
  rename_i hComponents
  exact ⟨UInt64.not_lt.mp hFeerate, Nat.not_lt.mp hComponents⟩

theorem not_any_not {α : Type} {test : α → Bool} {items : List α}
    (hNone : ¬ items.any (fun item => !test item) = true) : ∀ item ∈ items, test item = true := by
  intro item hMem
  by_contra hTest
  apply hNone
  rw [List.any_eq_true]
  exact ⟨item, hMem, by simpa using hTest⟩

open ServerPlan in
theorem accepted_of_validate {hello : ServerHello} {inputPubkeys : List (List UInt8)}
    {inputValues : List UInt64} {outputScripts : List (List UInt8)} {plans : List FusionTierPlan}
    {indexed : BTreeMap UInt64 FusionTierPlan}
    (hAccepts :
      validateAndIndexPlans hello inputPubkeys inputValues outputScripts plans = .ok indexed)
    {tier : UInt64} {plan : FusionTierPlan} (hPlan : indexed.get? tier = some plan) :
    Accepted hello inputPubkeys inputValues outputScripts plan := by
  unfold validateAndIndexPlans at hAccepts
  rcases bind_eq_ok_iff.mp hAccepts with ⟨done, hHello, hAccepts⟩
  split at hAccepts
  · cases hAccepts
  rename_i hInputs
  rw [not_or, not_not] at hInputs
  split at hAccepts
  · cases hAccepts
  rename_i hKeys
  split at hAccepts
  · cases hAccepts
  rename_i hScripts
  rw [not_or] at hScripts
  split at hAccepts
  · cases hAccepts
  dsimp only at hAccepts
  split at hAccepts
  · cases hAccepts
  split at hAccepts
  · cases hAccepts
  rcases bind_eq_ok_iff.mp hAccepts with ⟨sumIn, hSum, hAccepts⟩
  rcases bind_eq_ok_iff.mp hAccepts with ⟨inputFees, hFees, hAccepts⟩
  rcases bind_eq_ok_iff.mp hAccepts with ⟨outputFee, hOutputFee, hAccepts⟩
  rcases bind_eq_ok_iff.mp hAccepts with ⟨tiers, -, hAccepts⟩
  rcases bind_eq_ok_iff.mp hAccepts with ⟨state, hIndexed, hAccepts⟩
  split at hAccepts
  · cases hAccepts
  rename_i hPool
  rw [not_not] at hPool
  cases hAccepts
  have hBounds := hello_bounds hHello
  have hCount := hBounds.2
  unfold maxComponents at hCount
  rcases indexed_within (by dsimp only; omega) hIndexed tier plan
      hPlan with
    ⟨hWithin, hLargest⟩
  have hLengths : ∀ key ∈ inputPubkeys, key.length = 33 := by
    intro key hMem
    have hKey := not_any_not hKeys key hMem
    unfold isCompressedKey at hKey
    rw [Bool.and_eq_true, beq_iff_eq] at hKey
    exact hKey.1
  have hBalance := hWithin.balance
  have hOutputs := hWithin.outputs_le
  dsimp only at hBalance hOutputs
  have hSumIn := checkedSum_eq_some (okOr_eq_ok_iff.mp hSum)
  rw [UInt64.toNat_zero, Nat.zero_add] at hSumIn
  have hInputFees := toNat_inputFees hLengths hFees
  rw [UInt64.toNat_zero, Nat.zero_add] at hInputFees
  have hOutFee : outputFee.toNat = feeOf _ 34 := toNat_componentFee hOutputFee
  rw [hSumIn, hInputFees, hOutFee] at hBalance
  refine
    { feerate_le := hBounds.1
      components_le := hBounds.2
      keys := hLengths
      scripts := ?_
      values := hInputs.2
      count := by omega
      pool := by omega
      excess_le := hWithin.excess_le.trans (min_le_right _ _)
      balance := hBalance }
  intro script hMem
  have hScript := not_any_not hScripts.2 script hMem
  unfold isStandardP2pkh at hScript
  simp only [Bool.and_eq_true, beq_iff_eq] at hScript
  exact hScript.1.1

end OptnWallet.Fusion
