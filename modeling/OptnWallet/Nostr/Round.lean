import Mathlib.Data.List.Sort
import Mathlib.Data.Rat.Floor
import OptnWallet.Library.StagedUpdate

/-
  The core of a fusion round between peers: the transaction that every peer assembles in the same
  way, and what a peer checks of it before it signs.

  Numbers are exact, as they are while amounts add up to at most 2^53.

  Main declarations:
    * `Nostr.assembleFusionTx`
    * `Nostr.verifyFusionSafety`
    * `Nostr.assembleFusionTx_spec`
    * `Nostr.verifyFusionSafety_ok_iff`
-/

--- Contributions

namespace OptnWallet.Nostr

open StagedUpdate

/- An outpoint with its value and key, in hexadecimal text. -/
structure FusionInputRef where
  prevTxid : String
  prevIndex : Int
  value : Int
  pubkey : String
deriving DecidableEq

structure FusionOutputRef where
  script : String
  value : Int
deriving DecidableEq

structure PeerContribution where
  inputs : List FusionInputRef
  outputs : List FusionOutputRef
deriving DecidableEq

structure AssembledFusionTx where
  inputs : List FusionInputRef
  outputs : List FusionOutputRef
deriving DecidableEq

def sizeOfInput (pubkeyHexLen : Nat) : ℚ := 108 + pubkeyHexLen / 2

def sizeOfOutput (scriptHexLen : Nat) : ℚ := 9 + scriptHexLen / 2

def txOverhead : ℚ := 10

def maxFeeFactor : Int := 3

def inputKey (i : FusionInputRef) : String :=
  i.prevTxid ++ ":" ++ toString i.prevIndex

def outputKey (o : FusionOutputRef) : String :=
  toString o.value ++ ":" ++ o.script

--- Assembly

structure Assembly where
  seen : List String
  inputs : List FusionInputRef
  outputs : List FusionOutputRef

def addInput (state : Assembly) (i : FusionInputRef) : Except String Assembly :=
  if inputKey i ∈ state.seen then .error ("duplicate input " ++ inputKey i)
  else .ok
      { seen := state.seen ++ [inputKey i]
        inputs := state.inputs ++ [i]
        outputs := state.outputs }

def addContribution (state : Assembly) (c : PeerContribution) : Except String Assembly := do
  let state ← c.inputs.foldlM addInput state
  .ok { state with outputs := state.outputs ++ c.outputs }

def inputBefore (a b : FusionInputRef) : Prop := inputKey a ≤ inputKey b

instance : DecidableRel inputBefore :=
  fun a b => inferInstanceAs (Decidable (inputKey a ≤ inputKey b))

/- By the value, and then by the script. -/
def outputBefore (a b : FusionOutputRef) : Prop :=
  if a.value ≠ b.value then a.value ≤ b.value
  else a.script ≤ b.script

instance : DecidableRel outputBefore :=
  fun a b => by unfold outputBefore; infer_instance

def Assembly.start : Assembly := { seen := [], inputs := [], outputs := [] }

def assembleFusionTx (contributions : List PeerContribution) : Except String AssembledFusionTx := do
  let state ← contributions.foldlM addContribution Assembly.start
  .ok
    { inputs := state.inputs.insertionSort inputBefore
      outputs := state.outputs.insertionSort outputBefore }

--- Safety

def estimateTxSize (tx : AssembledFusionTx) : ℚ :=
  txOverhead + (tx.inputs.map (fun i => sizeOfInput i.pubkey.length)).sum +
    (tx.outputs.map (fun o => sizeOfOutput o.script.length)).sum

def minimumFee (tx : AssembledFusionTx) (feerate : Nat) : Int :=
  ⌈estimateTxSize tx * feerate / 1000⌉

structure SafetyResult where
  ok : Bool
  reason : Option String
  totalIn : Int
  totalOut : Int
  fee : Int
  requiredFee : Int
deriving DecidableEq

/- The first of the outputs that is not available as often as it is needed. -/
def missingOutput (available : String → Nat) : List FusionOutputRef → Option FusionOutputRef
  | [] => none
  | o :: outputs =>
    if available (outputKey o) < 1 then some o
    else
      missingOutput (Function.update available (outputKey o) (available (outputKey o) - 1)) outputs

section

variable (tx : AssembledFusionTx)

def totalIn : Int := (tx.inputs.map FusionInputRef.value).sum

def totalOut : Int := (tx.outputs.map FusionOutputRef.value).sum

/- The reason to refuse, if there is one. -/
def refusal (mine : PeerContribution) (feerate : Nat) : Option String :=
  let fee := totalIn tx - totalOut tx
  let requiredFee := minimumFee tx feerate
  match mine.inputs.find?
      (fun i => inputKey i ∉ tx.inputs.map inputKey) with
  | some i => some ("my input " ++ inputKey i ++ " missing")
  | none =>
    match missingOutput
        (fun key => (tx.outputs.map outputKey).count key)
        mine.outputs with
    | some o => some ("my output " ++ toString o.value ++ " sats to " ++
          String.ofList (o.script.toList.take 12) ++ "… missing")
    | none =>
      if totalIn tx < totalOut tx then some "inflation: outputs exceed inputs"
      else if fee < requiredFee then
        some ("fee " ++ toString fee ++ " underpays (need " ++ toString requiredFee ++ ")")
      else if requiredFee * maxFeeFactor < fee then some
          ("fee " ++ toString fee ++ " too high (max " ++ toString (requiredFee * maxFeeFactor) ++
            ")")
      else none

def verifyFusionSafety (mine : PeerContribution) (feerate : Nat) : SafetyResult :=
  { ok := (refusal tx mine feerate).isNone
    reason := refusal tx mine feerate
    totalIn := totalIn tx
    totalOut := totalOut tx
    fee := totalIn tx - totalOut tx
    requiredFee := minimumFee tx feerate }

end

--- What Is Assembled

variable {state next : Assembly}

theorem addInput_spec {i : FusionInputRef}
    (hAdd : addInput state i = .ok next) :
    inputKey i ∉ state.seen ∧
      next =
        { seen := state.seen ++ [inputKey i]
          inputs := state.inputs ++ [i]
          outputs := state.outputs } := by
  unfold addInput at hAdd
  split at hAdd
  · cases hAdd
  · rename_i hFresh
    cases hAdd
    exact ⟨hFresh, rfl⟩

/- The keys of the inputs so far, each of them once. -/
structure Assembly.Tidy (state : Assembly) : Prop where
  seen : state.seen = state.inputs.map inputKey
  nodup : (state.inputs.map inputKey).Nodup

theorem tidy_start : Assembly.start.Tidy := ⟨rfl, List.nodup_nil⟩

/- By induction over the inputs. -/
theorem foldlM_addInput_spec (inputs : List FusionInputRef) (hTidy : state.Tidy)
    (hRun : inputs.foldlM addInput state = .ok next) :
    next.Tidy ∧ next.inputs = state.inputs ++ inputs ∧ next.outputs = state.outputs := by
  induction inputs generalizing state with
  | nil =>
    cases hRun
    exact ⟨hTidy, by simp, rfl⟩
  | cons i inputs ih =>
    rw [List.foldlM_cons, bind_eq_ok_iff] at hRun
    rcases hRun with ⟨middle, hAdd, hRest⟩
    rcases addInput_spec hAdd with ⟨hFresh, rfl⟩
    have hMiddle :
        Assembly.Tidy
          { seen := state.seen ++ [inputKey i]
            inputs := state.inputs ++ [i]
            outputs := state.outputs } := by
      constructor
      · simp [hTidy.seen]
      · rw [hTidy.seen] at hFresh
        rw [List.map_append, List.map_singleton, ← List.concat_eq_append]
        exact List.Nodup.concat hFresh hTidy.nodup
    rcases ih hMiddle hRest with ⟨hNext, hInputs, hOutputs⟩
    refine ⟨hNext, ?_, hOutputs⟩
    rw [hInputs]
    simp

/- By induction over the contributions. -/
theorem foldlM_addContribution_spec (contributions : List PeerContribution) (hTidy : state.Tidy)
    (hRun : contributions.foldlM addContribution state = .ok next) :
    next.Tidy ∧
    next.inputs = state.inputs ++ contributions.flatMap PeerContribution.inputs ∧
    next.outputs = state.outputs ++ contributions.flatMap PeerContribution.outputs := by
  induction contributions generalizing state with
  | nil =>
    cases hRun
    exact ⟨hTidy, by simp, by simp⟩
  | cons c contributions ih =>
    rw [List.foldlM_cons, bind_eq_ok_iff] at hRun
    rcases hRun with ⟨middle, hAdd, hRest⟩
    unfold addContribution at hAdd
    rw [bind_eq_ok_iff] at hAdd
    rcases hAdd with ⟨read, hRead, hAdd⟩
    cases hAdd
    rcases foldlM_addInput_spec c.inputs hTidy hRead with ⟨hReadTidy, hReadInputs, hReadOutputs⟩
    have hMiddle : Assembly.Tidy { read with outputs := read.outputs ++ c.outputs } :=
      ⟨hReadTidy.seen, hReadTidy.nodup⟩
    rcases ih hMiddle hRest with ⟨hNext, hInputs, hOutputs⟩
    refine ⟨hNext, ?_, ?_⟩
    · rw [hInputs, hReadInputs]
      simp
    · rw [hOutputs, hReadOutputs]
      simp

/- Every input has another key, and nothing is added or left out. -/
theorem assembleFusionTx_spec {contributions : List PeerContribution} {tx : AssembledFusionTx}
    (hAssemble : assembleFusionTx contributions = .ok tx) :
    (tx.inputs.map inputKey).Nodup ∧
    tx.inputs.Perm (contributions.flatMap PeerContribution.inputs) ∧
    tx.outputs.Perm (contributions.flatMap PeerContribution.outputs) := by
  unfold assembleFusionTx at hAssemble
  rw [bind_eq_ok_iff] at hAssemble
  rcases hAssemble with ⟨state, hRun, hTx⟩
  cases hTx
  rcases foldlM_addContribution_spec contributions tidy_start hRun with ⟨hTidy, hInputs, hOutputs⟩
  unfold Assembly.start at hInputs hOutputs
  rw [List.nil_append] at hInputs hOutputs
  have hSorted := List.perm_insertionSort inputBefore state.inputs
  refine ⟨?_, ?_, ?_⟩
  · exact (hSorted.map inputKey).nodup_iff.mpr hTidy.nodup
  · rw [← hInputs]
    exact hSorted
  · rw [← hOutputs]
    exact List.perm_insertionSort outputBefore state.outputs

--- What Is Assembled Of Distinct Inputs

/- By induction over the inputs. -/
theorem exists_foldlM_addInput (inputs : List FusionInputRef) (hTidy : state.Tidy)
    (hNodup : ((state.inputs ++ inputs).map inputKey).Nodup) :
    ∃ next, inputs.foldlM addInput state = .ok next := by
  induction inputs generalizing state with
  | nil => exact ⟨state, rfl⟩
  | cons i inputs ih =>
    have hFresh : inputKey i ∉ state.seen := by
      rw [hTidy.seen]
      rw [List.map_append, List.map_cons] at hNodup
      exact fun hSeen => List.disjoint_of_nodup_append hNodup hSeen List.mem_cons_self
    have hAdd :
        addInput state i = .ok
            { seen := state.seen ++ [inputKey i]
              inputs := state.inputs ++ [i]
              outputs := state.outputs } := by
      unfold addInput
      exact if_neg hFresh
    have hNext :=
      foldlM_addInput_spec [i] hTidy
        (by
          rw [List.foldlM_cons, hAdd]
          rfl)
    rw [List.foldlM_cons, bind_of_ok hAdd]
    apply ih hNext.1
    simpa using hNodup

/- By induction over the contributions. -/
theorem exists_foldlM_addContribution (contributions : List PeerContribution) (hTidy : state.Tidy)
    (hNodup : ((state.inputs ++ contributions.flatMap PeerContribution.inputs).map inputKey).Nodup)
      : ∃ next, contributions.foldlM addContribution state = .ok next := by
  induction contributions generalizing state with
  | nil => exact ⟨state, rfl⟩
  | cons c contributions ih =>
    rw [List.flatMap_cons, ← List.append_assoc] at hNodup
    have hHere : ((state.inputs ++ c.inputs).map inputKey).Nodup := by
      rw [List.map_append] at hNodup
      exact hNodup.of_append_left
    rcases exists_foldlM_addInput c.inputs hTidy hHere with ⟨read, hRead⟩
    rcases foldlM_addInput_spec c.inputs hTidy hRead with ⟨hReadTidy, hReadInputs, -⟩
    have hAdd :
        addContribution state c = .ok
            { read with
              outputs := read.outputs ++ c.outputs } := by
      unfold addContribution
      rw [bind_of_ok hRead]
    have hNext : Assembly.Tidy { read with outputs := read.outputs ++ c.outputs } :=
      ⟨hReadTidy.seen, hReadTidy.nodup⟩
    rw [List.foldlM_cons, bind_of_ok hAdd]
    apply ih hNext
    dsimp only
    rw [hReadInputs]
    exact hNodup

theorem exists_assembleFusionTx {contributions : List PeerContribution}
    (hNodup : ((contributions.flatMap PeerContribution.inputs).map inputKey).Nodup) :
    ∃ tx, assembleFusionTx contributions = .ok tx := by
  rcases exists_foldlM_addContribution contributions tidy_start hNodup with ⟨state, hRun⟩
  unfold assembleFusionTx
  rw [bind_of_ok hRun]
  exact ⟨_, rfl⟩

--- What Is Safe

/- By induction over the outputs that are needed. -/
theorem missingOutput_eq_none_iff (outputs : List FusionOutputRef) (available : String → Nat) :
    missingOutput available outputs = none ↔
    ∀ key, (outputs.map outputKey).count key ≤ available key := by
  induction outputs generalizing available with
  | nil => simp [missingOutput]
  | cons o outputs ih =>
    unfold missingOutput
    by_cases hNone : available (outputKey o) < 1
    · rw [if_pos hNone]
      simp only [reduceCtorEq, false_iff, not_forall, not_le]
      refine ⟨outputKey o, ?_⟩
      rw [List.map_cons, List.count_cons_self]
      omega
    · rw [if_neg hNone, ih]
      constructor
      · intro hCounts key
        have hKey := hCounts key
        by_cases hSame : key = outputKey o
        · subst hSame
          rw [Function.update_self] at hKey
          rw [List.map_cons, List.count_cons_self]
          omega
        · rw [Function.update_of_ne hSame] at hKey
          rw [List.map_cons, List.count_cons_of_ne (Ne.symm hSame)]
          exact hKey
      · intro hCounts key
        have hKey := hCounts key
        by_cases hSame : key = outputKey o
        · subst hSame
          rw [List.map_cons, List.count_cons_self] at hKey
          rw [Function.update_self]
          omega
        · rw [List.map_cons, List.count_cons_of_ne (Ne.symm hSame)] at hKey
          rw [Function.update_of_ne hSame]
          exact hKey

/- Everything that is mine is there, and the fee is in its bounds. -/
theorem verifyFusionSafety_ok_iff (tx : AssembledFusionTx) (mine : PeerContribution)
    (feerate : Nat) :
    (verifyFusionSafety tx mine feerate).ok = true ↔
    (∀ i ∈ mine.inputs, inputKey i ∈ tx.inputs.map inputKey) ∧
      (∀ key, (mine.outputs.map outputKey).count key ≤ (tx.outputs.map outputKey).count key) ∧
      totalOut tx ≤ totalIn tx ∧
      minimumFee tx feerate ≤ totalIn tx - totalOut tx ∧
      totalIn tx - totalOut tx ≤ minimumFee tx feerate * maxFeeFactor := by
  have hInputs :
      mine.inputs.find? (fun i => inputKey i ∉ tx.inputs.map inputKey) = none ↔
        ∀ i ∈ mine.inputs, inputKey i ∈ tx.inputs.map inputKey := by
    simp [List.find?_eq_none]
  have hOutputs :=
    missingOutput_eq_none_iff mine.outputs (fun key => (tx.outputs.map outputKey).count key)
  rw [← hInputs, ← hOutputs]
  unfold verifyFusionSafety
  dsimp only
  rw [Option.isNone_iff_eq_none]
  unfold refusal
  dsimp only
  cases
    hFound :
      mine.inputs.find?
        (fun i => inputKey i ∉ tx.inputs.map inputKey) with
  | some i => simp
  | none =>
    cases
      hMissing :
        missingOutput
          (fun key => (tx.outputs.map outputKey).count key)
          mine.outputs with
    | some o => simp
    | none =>
      dsimp only
      simp only [true_and]
      split_ifs with hInflates hUnder hOver
      · simp
        omega
      · simp
        omega
      · simp
        omega
      · simp
        omega

end OptnWallet.Nostr
