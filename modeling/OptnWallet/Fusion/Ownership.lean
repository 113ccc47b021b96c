import OptnWallet.Core.Coins.Txid
import OptnWallet.Fusion.ServerPlan
import OptnWallet.Fusion.Tx
import OptnWallet.Library.Matching

/-
  What is checked of the shared components before anything is signed: that the transaction does
  not create value, that it has every input and output of the wallet, and where the own components
  are in the lists of all players; and what that says of the transaction that is rebuilt of them.

  Main declarations:
    * `Fusion.verifySharedTransaction`
    * `Fusion.mapOwnedItems` and `Fusion.globalIndicesInLocalOrder`
    * `Fusion.ShareChecked` and `Fusion.shareChecked_of_verify`
    * `Fusion.Rebuilt` and `Fusion.rebuilt_of_fromComponents`
    * `Fusion.OwnSlots` and `Fusion.ownSlots_of_map`
-/

--- Own Inputs

namespace OptnWallet.Fusion

open WordSums (checkedAdd)

/- An input of the wallet, with the key that signs it.  The txid is displayed. -/
structure FusionInputKey where
  prevTxid : String
  prevIndex : UInt32
  pubkey : List UInt8
  value : UInt64
  privkey : Vector UInt8 32

def displayTxidToWire (txid : String) : Except String (Vector UInt8 32) :=
  let digits := Cashaddr.utf8 txid.toList
  if digits.length ≠ 64 then .error "prev_txid must be 32 bytes"
  else
    match hexPairs digits with
    | none => .error "bad prev_txid hex"
    | some bytes =>
      if hLength : bytes.length = 32 then .ok (Vector.mk bytes.toArray hLength).reverse
      else .error "bad prev_txid hex"

def inputMatchesComponent (input : FusionInputKey) (component : InputComponent) :
    Except String Bool := do
  let txid ← displayTxidToWire input.prevTxid
  .ok (component.prevTxid == txid.toList &&
      component.prevIndex == input.prevIndex &&
      component.pubkey == input.pubkey &&
      component.amount == input.value)

--- Shared Transactions

/- The outpoints that were seen are those of the inputs. -/
structure SharedItems where
  inputs : List InputComponent
  outputs : List OutputComponent
  totalInputValue : UInt64
  totalOutputValue : UInt64

def seenOutpoint (inputs : List InputComponent) (input : InputComponent) : Bool :=
  inputs.any (fun seen => seen.prevTxid == input.prevTxid && seen.prevIndex == input.prevIndex)

def addSharedInput (index : Nat) (items : SharedItems) (input : InputComponent) :
    Except String SharedItems :=
  if input.prevTxid.length ≠ 32 then
    .error ("component " ++ toString index ++ ": bad prevout length")
  else if seenOutpoint items.inputs input then
    .error "shared transaction contains a duplicate input"
  else do
    let total ←
      okOr "shared transaction input value overflow" (checkedAdd items.totalInputValue input.amount)
    .ok { items with inputs := items.inputs ++ [input], totalInputValue := total }

def addSharedOutput (items : SharedItems) (output : OutputComponent) :
    Except String SharedItems := do
  let total ← okOr "shared transaction output value overflow"
      (checkedAdd items.totalOutputValue output.amount)
  .ok { items with outputs := items.outputs ++ [output], totalOutputValue := total }

variable (components : Wire Component)

def addShared (items : SharedItems) (entry : List UInt8 × Nat) : Except String SharedItems := do
  let component ← (components.decode entry.1).mapError
      (fun error => "component " ++ toString entry.2 ++ " decode: " ++ error)
  match component.component with
  | some (.input input) => addSharedInput entry.2 items input
  | some (.output output) => addSharedOutput items output
  | some .blank => .ok items
  | none => .error ("component " ++ toString entry.2 ++ ": empty")

def sharedItems (allComponents : List (List UInt8)) : Except String SharedItems :=
  allComponents.zipIdx.foldlM (addShared components)
    { inputs := [], outputs := [], totalInputValue := 0, totalOutputValue := 0 }

/- Each of the own inputs and outputs takes a shared one that no other of them took. -/
def verifySharedTransaction (allComponents : List (List UInt8)) (inputs : List FusionInputKey)
    (outputScripts : List (List UInt8)) (outputValues : List UInt64) : Except String Unit :=
  if outputScripts.length ≠ outputValues.length then .error "output script/value length mismatch"
  else do
    let items ← sharedItems components allComponents
    if items.totalInputValue < items.totalOutputValue then
      .error "shared transaction inflates value"
    else do
      let _ ← Matching.takeAll inputMatchesComponent
          "shared transaction omits one of this wallet's inputs" inputs items.inputs
      let _ ← Matching.takeAll
          (fun entry shared => .ok (shared.scriptpubkey == entry.1 && shared.amount == entry.2))
          "shared transaction omits one of this wallet's outputs" (outputScripts.zip outputValues)
          items.outputs
      .ok ()

--- Own Places

/- The first place of the item that no item before took. -/
def mapItem (shared : List (List UInt8)) (label : String) (mapping : BTreeMap Nat Nat)
    (entry : List UInt8 × Nat) : Except String (BTreeMap Nat Nat) :=
  match shared.zipIdx.find?
      (fun candidate => (mapping.get? candidate.2).isNone &&
          candidate.1 == entry.1) with
  | some candidate => .ok (mapping.insert candidate.2 entry.2)
  | none => .error ("server omitted one of this wallet's " ++ label)

/- From the places in the shared list to the own slots. -/
def mapOwnedItems (owned shared : List (List UInt8)) (label : String) :
    Except String (BTreeMap Nat Nat) :=
  if ¬ shared.Nodup then .error ("shared " ++ label ++ " list contains duplicates")
  else owned.zipIdx.foldlM (mapItem shared label) BTreeMap.new

def placeIndex (label : String) (ordered : List (Option Nat)) (entry : Nat × Nat) :
    Except String (List (Option Nat)) :=
  match ordered[entry.2]? with
  | none => .error ("owned " ++ label ++ " local index out of range")
  | some (some _) => .error ("duplicate owned " ++ label ++ " local index")
  | some none => .ok (ordered.set entry.2 (some entry.1))

def globalIndicesInLocalOrder (mapping : BTreeMap Nat Nat) (expectedCount : Nat) (label : String) :
    Except String (List Nat) :=
  if mapping.entries.length ≠ expectedCount then
    .error ("owned " ++ label ++ " mapping count mismatch")
  else do
    let ordered ← mapping.entries.foldlM (placeIndex label) (List.replicate expectedCount none)
    ordered.mapM (okOr ("missing owned " ++ label ++ " mapping"))

--- Parts Of The Shared Components

open StagedUpdate WordSums

variable (components : Wire Component)

def partOf (bytes : List UInt8) : Option ComponentPart :=
  match components.decode bytes with
  | .ok component => component.component
  | .error _ => none

def asInput : Option ComponentPart → Option InputComponent
  | some (.input input) => some input
  | _ => none

def asOutput : Option ComponentPart → Option OutputComponent
  | some (.output output) => some output
  | _ => none

/- The input that a shared component is. -/
def inputOf (bytes : List UInt8) : Option InputComponent := asInput (partOf components bytes)

def outputOf (bytes : List UInt8) : Option OutputComponent := asOutput (partOf components bytes)

def InputComponent.outpoint (input : InputComponent) : List UInt8 × UInt32 :=
  (input.prevTxid, input.prevIndex)

variable {components} {bytes : List UInt8}

theorem partOf_of_decode {component : Component} {error : String → String}
    (hDecode : (components.decode bytes).mapError error = .ok component) :
    partOf components bytes = component.component := by
  unfold partOf
  rw [mapError_eq_ok_iff.mp hDecode]

theorem inputOf_of_part {part : Option ComponentPart} (hPart : partOf components bytes = part) :
    inputOf components bytes = asInput part := congrArg asInput hPart

theorem outputOf_of_part {part : Option ComponentPart} (hPart : partOf components bytes = part) :
    outputOf components bytes = asOutput part := congrArg asOutput hPart

theorem filterMap_concat {α β : Type} {f : α → Option β} {items : List α} {item : α}
    {image : Option β} (hImage : f item = image) :
    (items ++ [item]).filterMap f = items.filterMap f ++ image.toList := by
  rw [List.filterMap_append, ← hImage]
  cases hHere : f item with
  | none => simp [hHere]
  | some b => simp [hHere]

--- Shared Items

/- What is known of the components that were added. -/
structure ItemsOf (components : Wire Component) (added : List (List UInt8)) (items : SharedItems) :
    Prop where
  inputs : items.inputs = added.filterMap (inputOf components)
  outputs : items.outputs = added.filterMap (outputOf components)
  outpoints : (items.inputs.map InputComponent.outpoint).Nodup
  totalInput :
    items.totalInputValue.toNat = (items.inputs.map (fun input => input.amount.toNat)).sum
  totalOutput :
    items.totalOutputValue.toNat = (items.outputs.map (fun output => output.amount.toNat)).sum

theorem outpoint_fresh {inputs : List InputComponent} {input : InputComponent}
    (hFresh : seenOutpoint inputs input = false) :
    input.outpoint ∉ inputs.map InputComponent.outpoint := by
  intro hMem
  rcases List.mem_map.mp hMem with ⟨seen, hSeen, hSame⟩
  have hNot := List.any_eq_false.mp hFresh seen hSeen
  apply hNot
  have hTxid := congrArg Prod.fst hSame
  have hIndex := congrArg Prod.snd hSame
  change seen.prevTxid = input.prevTxid at hTxid
  change seen.prevIndex = input.prevIndex at hIndex
  simp [hTxid, hIndex]

theorem itemsOf_step (added : List (List UInt8 × Nat)) (items : SharedItems)
    (entry : List UInt8 × Nat) (next : SharedItems)
    (hItems : ItemsOf components (added.map Prod.fst) items)
    (hStep : addShared components items entry = .ok next) :
    ItemsOf components ((added ++ [entry]).map Prod.fst) next := by
  unfold addShared at hStep
  rcases bind_eq_ok_iff.mp hStep with ⟨component, hDecode, hStep⟩
  have hPart := partOf_of_decode hDecode
  rw [List.map_append, List.map_singleton]
  split at hStep
  · rename_i input hInput
    rw [hInput] at hPart
    have hIn := inputOf_of_part hPart
    have hOut := outputOf_of_part hPart
    unfold addSharedInput at hStep
    split at hStep
    · cases hStep
    split at hStep
    · cases hStep
    rename_i hFresh
    rcases bind_eq_ok_iff.mp hStep with ⟨total, hTotal, hStep⟩
    rw [← Except.ok.inj hStep]
    constructor
    · rw [filterMap_concat hIn, ← hItems.inputs]
      rfl
    · rw [filterMap_concat hOut, ← hItems.outputs]
      exact (List.append_nil _).symm
    · rw [List.map_append, List.map_singleton]
      apply List.Nodup.append hItems.outpoints (List.nodup_singleton _)
      rw [List.disjoint_singleton]
      exact outpoint_fresh (Bool.eq_false_of_not_eq_true hFresh)
    · rw [checkedAdd_eq_some (okOr_eq_ok_iff.mp hTotal), hItems.totalInput]
      simp
    · exact hItems.totalOutput
  · rename_i output hOutput
    rw [hOutput] at hPart
    have hIn := inputOf_of_part hPart
    have hOut := outputOf_of_part hPart
    unfold addSharedOutput at hStep
    rcases bind_eq_ok_iff.mp hStep with ⟨total, hTotal, hStep⟩
    rw [← Except.ok.inj hStep]
    constructor
    · rw [filterMap_concat hIn, ← hItems.inputs]
      exact (List.append_nil _).symm
    · rw [filterMap_concat hOut, ← hItems.outputs]
      rfl
    · exact hItems.outpoints
    · exact hItems.totalInput
    · rw [checkedAdd_eq_some (okOr_eq_ok_iff.mp hTotal), hItems.totalOutput]
      simp
  · rename_i hBlank
    rw [hBlank] at hPart
    have hIn := inputOf_of_part hPart
    have hOut := outputOf_of_part hPart
    rw [← Except.ok.inj hStep]
    constructor
    · rw [filterMap_concat hIn, ← hItems.inputs]
      exact (List.append_nil _).symm
    · rw [filterMap_concat hOut, ← hItems.outputs]
      exact (List.append_nil _).symm
    · exact hItems.outpoints
    · exact hItems.totalInput
    · exact hItems.totalOutput
  · cases hStep

variable {allComponents : List (List UInt8)}

theorem itemsOf_sharedItems {items : SharedItems}
    (hItems : sharedItems components allComponents = .ok items) :
    ItemsOf components allComponents items := by
  unfold sharedItems at hItems
  have hStart :
      ItemsOf components (([] : List (List UInt8 × Nat)).map Prod.fst)
        { inputs := []
          outputs := []
          totalInputValue := 0
          totalOutputValue := 0 } := by
    constructor
    · rfl
    · rfl
    · exact List.nodup_nil
    · rfl
    · rfl
  have hRun := foldlM_invariant itemsOf_step hStart hItems
  rw [List.nil_append, List.zipIdx_map_fst] at hRun
  exact hRun

--- Own Inputs And Outputs

/- The own input as the transaction has it. -/
def ownInput (key : FusionInputKey) : Except String TxInput := do
  let txid ← displayTxidToWire key.prevTxid
  .ok { prevTxidWire := txid, prevIndex := key.prevIndex, pubkey := key.pubkey, value := key.value }

def TxInput.component (input : TxInput) : InputComponent :=
  { prevTxid := input.prevTxidWire.toList
    prevIndex := input.prevIndex
    pubkey := input.pubkey
    amount := input.value }

def TxInput.outpoint (input : TxInput) : Vector UInt8 32 × UInt32 :=
  (input.prevTxidWire, input.prevIndex)

theorem TxInput.component_injective : Function.Injective TxInput.component := by
  intro first second hSame
  unfold TxInput.component at hSame
  rw [InputComponent.mk.injEq, Vector.toList_inj] at hSame
  rw [TxInput.mk.injEq]
  exact hSame

theorem matches_iff {key : FusionInputKey} {component : InputComponent} :
    inputMatchesComponent key component = .ok true ↔
    ∃ input, ownInput key = .ok input ∧ input.component = component := by
  unfold inputMatchesComponent ownInput
  constructor
  · intro hMatch
    rcases bind_eq_ok_iff.mp hMatch with ⟨txid, hTxid, hMatch⟩
    refine ⟨_, bind_of_ok hTxid _, ?_⟩
    have hAll := Except.ok.inj hMatch
    simp only [Bool.and_eq_true, beq_iff_eq] at hAll
    rcases hAll with ⟨⟨⟨hPrev, hIndex⟩, hKey⟩, hAmount⟩
    unfold TxInput.component
    rw [← hPrev, ← hIndex, ← hKey, ← hAmount]
  · rintro ⟨input, hInput, rfl⟩
    rcases bind_eq_ok_iff.mp hInput with ⟨txid, hTxid, hInput⟩
    rw [bind_of_ok hTxid, ← Except.ok.inj hInput]
    simp [TxInput.component]

/- What the transaction has of a planned output. -/
def plannedComponent (entry : List UInt8 × UInt64) : OutputComponent :=
  { scriptpubkey := entry.1, amount := entry.2 }

theorem owned_of_matches {inputs : List FusionInputKey} {taken : List InputComponent}
    (hTaken :
        List.Forall₂ (fun key component => inputMatchesComponent key component = .ok true) inputs
          taken) :
    ∃ owned, inputs.mapM ownInput = .ok owned ∧ owned.map TxInput.component = taken := by
  induction hTaken with
  | nil => exact ⟨[], rfl, rfl⟩
  | cons hMatch _ ih =>
    rcases matches_iff.mp hMatch with ⟨input, hInput, hComponent⟩
    rcases ih with ⟨owned, hOwned, hMap⟩
    refine ⟨input :: owned, ?_, ?_⟩
    · rw [List.mapM_cons, bind_of_ok hInput, bind_of_ok hOwned]
      rfl
    · rw [List.map_cons, hComponent, hMap]

theorem planned_of_matches {planned : List (List UInt8 × UInt64)} {taken : List OutputComponent}
    (hTaken :
        List.Forall₂
          (fun entry shared =>
            (Except.ok (shared.scriptpubkey == entry.1 && shared.amount == entry.2) : Except String
                  Bool) = .ok true) planned taken) : planned.map plannedComponent = taken := by
  induction hTaken with
  | nil => rfl
  | cons hMatch _ ih =>
    have hSame := Except.ok.inj hMatch
    simp only [Bool.and_eq_true, beq_iff_eq] at hSame
    rw [List.map_cons, ih]
    unfold plannedComponent
    rw [← hSame.1, ← hSame.2]

/- The checks, on the shared components themselves. -/
structure ShareChecked (components : Wire Component) (allComponents : List (List UInt8))
    (inputs : List FusionInputKey) (planned : List (List UInt8 × UInt64)) : Prop where
  outpoints : ((allComponents.filterMap (inputOf components)).map InputComponent.outpoint).Nodup
  balanced :
    ((allComponents.filterMap (outputOf components)).map (fun output => output.amount.toNat)).sum ≤
      ((allComponents.filterMap (inputOf components)).map (fun input => input.amount.toNat)).sum
  ownInputs :
    ∃ owned,
    inputs.mapM ownInput = .ok owned ∧
      (owned.map TxInput.component).Subperm (allComponents.filterMap (inputOf components))
  ownOutputs :
    (planned.map plannedComponent).Subperm (allComponents.filterMap (outputOf components))

theorem shareChecked_of_verify {inputs : List FusionInputKey} {outputScripts : List (List UInt8)}
    {outputValues : List UInt64}
    (hVerify :
        verifySharedTransaction components allComponents inputs outputScripts outputValues = .ok ())
      : ShareChecked components allComponents inputs (outputScripts.zip outputValues) := by
  unfold verifySharedTransaction at hVerify
  split at hVerify
  · cases hVerify
  rcases bind_eq_ok_iff.mp hVerify with ⟨items, hItems, hVerify⟩
  have hOf := itemsOf_sharedItems hItems
  split at hVerify
  · cases hVerify
  rename_i hTotals
  rcases bind_eq_ok_iff.mp hVerify with ⟨left, hIns, hVerify⟩
  rcases bind_eq_ok_iff.mp hVerify with ⟨other, hOuts, -⟩
  constructor
  · rw [← hOf.inputs]
    exact hOf.outpoints
  · rw [← hOf.inputs, ← hOf.outputs, ← hOf.totalInput, ← hOf.totalOutput]
    rw [UInt64.lt_iff_toNat_lt] at hTotals
    exact Nat.le_of_not_lt hTotals
  · rcases Matching.perm_of_takeAll hIns with ⟨taken, hTaken, hPerm⟩
    rcases owned_of_matches hTaken with ⟨owned, hOwned, hMap⟩
    refine ⟨owned, hOwned, ?_⟩
    rw [hMap, ← hOf.inputs]
    exact (List.sublist_append_left taken left).subperm.trans hPerm.symm.subperm
  · rcases Matching.perm_of_takeAll hOuts with ⟨taken, hTaken, hPerm⟩
    rw [planned_of_matches hTaken, ← hOf.outputs]
    exact (List.sublist_append_left taken other).subperm.trans hPerm.symm.subperm

--- Rebuilt Transactions

def OutputComponent.output (output : OutputComponent) : TxOutput :=
  { value := output.amount, script := output.scriptpubkey }

/- What is known of the transaction once these components were added. -/
structure PartsOf (components : Wire Component) (sessionHash : Vector UInt8 32)
    (added : List (List UInt8 × Nat)) (tx : FusionTx) : Prop where
  inputs : tx.inputs.map TxInput.component = (added.map Prod.fst).filterMap (inputOf components)
  outputs :
    tx.outputs = FusionTx.marker sessionHash ::
        ((added.map Prod.fst).filterMap (outputOf components)).map OutputComponent.output
  places :
    List.Forall₂
      (fun input place =>
        ∃ bytes, (bytes, place) ∈ added ∧ inputOf components bytes = some input.component) tx.inputs
      tx.inputComponentIdx
  version : tx.version = 1

theorem places_append {added : List (List UInt8 × Nat)} {entry : List UInt8 × Nat}
    {inputs : List TxInput} {places : List Nat}
    (hPlaces :
        List.Forall₂
          (fun input place =>
            ∃ bytes, (bytes, place) ∈ added ∧ inputOf components bytes = some input.component)
          inputs places) :
    List.Forall₂
      (fun input place => ∃ bytes,
          (bytes, place) ∈ added ++ [entry] ∧ inputOf components bytes = some input.component)
      inputs places := by
  apply hPlaces.imp
  rintro input place ⟨bytes, hMem, hInput⟩
  exact ⟨bytes, List.mem_append_left _ hMem, hInput⟩

theorem partsOf_step (sessionHash : Vector UInt8 32) (added : List (List UInt8 × Nat))
    (tx : FusionTx) (entry : List UInt8 × Nat) (next : FusionTx)
    (hParts : PartsOf components sessionHash added tx)
    (hStep : FusionTx.addComponent components tx entry = .ok next) :
    PartsOf components sessionHash (added ++ [entry]) next := by
  unfold FusionTx.addComponent at hStep
  rcases bind_eq_ok_iff.mp hStep with ⟨component, hDecode, hStep⟩
  have hPart := partOf_of_decode hDecode
  have hPlaces := @places_append _ _ entry _ _ hParts.places
  unfold FusionTx.addPart at hStep
  split at hStep
  · rename_i input hInput
    rw [hInput] at hPart
    have hIn := inputOf_of_part hPart
    have hOut := outputOf_of_part hPart
    split at hStep
    · rename_i hLength
      rw [← Except.ok.inj hStep]
      constructor
      · rw [List.map_append, List.map_append, List.map_singleton, List.map_singleton,
          filterMap_concat hIn, hParts.inputs]
        rfl
      · rw [List.map_append, List.map_singleton, filterMap_concat hOut, hParts.outputs]
        exact congrArg _ (congrArg _ (List.append_nil _).symm)
      · apply List.rel_append hPlaces
        apply List.Forall₂.cons _ List.Forall₂.nil
        refine ⟨entry.1, ?_, hIn⟩
        exact List.mem_append_right _ List.mem_cons_self
      · exact hParts.version
    · cases hStep
  · rename_i output hOutput
    rw [hOutput] at hPart
    have hIn := inputOf_of_part hPart
    have hOut := outputOf_of_part hPart
    rw [← Except.ok.inj hStep]
    constructor
    · rw [List.map_append, List.map_singleton, filterMap_concat hIn]
      exact hParts.inputs.trans (List.append_nil _).symm
    · rw [List.map_append, List.map_singleton, filterMap_concat hOut, hParts.outputs,
        List.map_append]
      rfl
    · exact hPlaces
    · exact hParts.version
  · rename_i hBlank
    rw [hBlank] at hPart
    have hIn := inputOf_of_part hPart
    have hOut := outputOf_of_part hPart
    rw [← Except.ok.inj hStep]
    constructor
    · rw [List.map_append, List.map_singleton, filterMap_concat hIn]
      exact hParts.inputs.trans (List.append_nil _).symm
    · rw [List.map_append, List.map_singleton, filterMap_concat hOut, hParts.outputs]
      exact congrArg _ (congrArg _ (List.append_nil _).symm)
    · exact hPlaces
    · exact hParts.version
  · cases hStep

/- The transaction has the shared inputs and outputs in their order, behind the marker. -/
structure Rebuilt (components : Wire Component) (allComponents : List (List UInt8))
    (sessionHash : Vector UInt8 32) (tx : FusionTx) : Prop where
  inputs : tx.inputs.map TxInput.component = allComponents.filterMap (inputOf components)
  outputs :
    tx.outputs = FusionTx.marker sessionHash ::
        (allComponents.filterMap (outputOf components)).map OutputComponent.output
  places :
    List.Forall₂
      (fun input place => ∃ bytes,
          allComponents[place]? = some bytes ∧ inputOf components bytes = some input.component)
      tx.inputs tx.inputComponentIdx
  version : tx.version = 1

theorem rebuilt_of_fromComponents {sessionHash : Vector UInt8 32} {tx : FusionTx}
    (hTx : FusionTx.fromComponents components allComponents sessionHash = .ok tx) :
    Rebuilt components allComponents sessionHash tx := by
  have hStart :
      PartsOf components sessionHash []
        { version := 1
          inputs := []
          outputs := [FusionTx.marker sessionHash]
          inputComponentIdx := [] } := by
    constructor
    · rfl
    · rfl
    · exact List.Forall₂.nil
    · rfl
  have hRun := foldlM_invariant (partsOf_step sessionHash) hStart hTx
  rw [List.nil_append] at hRun
  have hFst : allComponents.zipIdx.map Prod.fst = allComponents :=
    List.zipIdx_map_fst 0 allComponents
  constructor
  · rw [hRun.inputs, hFst]
  · rw [hRun.outputs, hFst]
  · apply hRun.places.imp
    rintro input place ⟨bytes, hMem, hInput⟩
    exact ⟨bytes, List.mem_zipIdx_iff_getElem?.mp hMem, hInput⟩
  · exact hRun.version

--- Slots

/- What is known of the mapping once these items were found. -/
structure Mapped (shared : List (List UInt8)) (found : List (List UInt8 × Nat))
    (mapping : BTreeMap Nat Nat) : Prop where
  sound :
    ∀ index slot,
    mapping.get? index = some slot → ∃ item, (item, slot) ∈ found ∧ shared[index]? = some item
  covers :
    ∀ entry ∈ found, ∃ index, mapping.get? index = some entry.2 ∧ shared[index]? = some entry.1
  nodup : (found.map Prod.fst).Nodup

/- The same item is not found twice where nothing is shared twice. -/
theorem mapped_step {shared : List (List UInt8)} {label : String} (hShared : shared.Nodup)
    (found : List (List UInt8 × Nat)) (mapping : BTreeMap Nat Nat) (entry : List UInt8 × Nat)
    (next : BTreeMap Nat Nat) (hMapped : Mapped shared found mapping)
    (hStep : mapItem shared label mapping entry = .ok next) :
    Mapped shared (found ++ [entry]) next := by
  unfold mapItem at hStep
  split at hStep
  · rename_i candidate hFind
    have hCandidate := List.find?_some hFind
    have hMem := List.mem_zipIdx_iff_getElem?.mp (List.mem_of_find?_eq_some hFind)
    rw [Bool.and_eq_true, beq_iff_eq] at hCandidate
    rcases hCandidate with ⟨hUnused, hItem⟩
    rw [Option.isNone_iff_eq_none] at hUnused
    rw [hItem] at hMem
    rw [← Except.ok.inj hStep]
    constructor
    · intro index slot hGet
      rw [BTreeMap.get?_insert] at hGet
      split at hGet
      · rename_i hIndex
        cases hGet
        refine ⟨entry.1, ?_, ?_⟩
        · exact List.mem_append_right _ List.mem_cons_self
        · rw [hIndex]
          exact hMem
      · rcases hMapped.sound index slot hGet with ⟨item, hFound, hAt⟩
        exact ⟨item, List.mem_append_left _ hFound, hAt⟩
    · intro other hOther
      rcases List.mem_append.mp hOther with hOld | hNew
      · rcases hMapped.covers other hOld with ⟨index, hGet, hAt⟩
        refine ⟨index, ?_, hAt⟩
        rw [BTreeMap.get?_insert, if_neg]
        · exact hGet
        · intro hSame
          rw [hSame, hUnused] at hGet
          cases hGet
      · rw [List.mem_singleton.mp hNew]
        refine ⟨candidate.2, ?_, hMem⟩
        rw [BTreeMap.get?_insert, if_pos rfl]
    · rw [List.map_append, List.map_singleton]
      apply List.Nodup.append hMapped.nodup (List.nodup_singleton _)
      rw [List.disjoint_singleton]
      intro hTwice
      rcases List.mem_map.mp hTwice with ⟨old, hOld, hSame⟩
      rcases hMapped.covers old hOld with ⟨index, hGet, hAt⟩
      rw [hSame, ← hMem] at hAt
      have hLt := (List.getElem?_eq_some_iff.mp hMem).1
      have hIndex : candidate.2 = index := (List.getElem?_inj hLt hShared).mp hAt.symm
      rw [← hIndex, hUnused] at hGet
      cases hGet
  · cases hStep

/- Every own item has a place, which no other item has. -/
structure OwnSlots (owned shared : List (List UInt8)) (mapping : BTreeMap Nat Nat) : Prop where
  sound :
    ∀ index slot,
    mapping.get? index = some slot → ∃ item, owned[slot]? = some item ∧ shared[index]? = some item
  covers :
    ∀ slot item,
    owned[slot]? = some item → ∃ index, mapping.get? index = some slot ∧ shared[index]? = some item
  nodup : owned.Nodup

theorem ownSlots_of_map {owned shared : List (List UInt8)} {label : String}
    {mapping : BTreeMap Nat Nat} (hMap : mapOwnedItems owned shared label = .ok mapping) :
    OwnSlots owned shared mapping := by
  unfold mapOwnedItems at hMap
  split at hMap
  · cases hMap
  rename_i hShared
  rw [not_not] at hShared
  have hStart : Mapped shared [] BTreeMap.new := by
    constructor
    · intro index slot hGet
      rw [BTreeMap.get?_new] at hGet
      cases hGet
    · exact List.forall_mem_nil _
    · exact List.nodup_nil
  have hRun := foldlM_invariant (mapped_step hShared) hStart hMap
  rw [List.nil_append] at hRun
  constructor
  · intro index slot hGet
    rcases hRun.sound index slot hGet with ⟨item, hMem, hAt⟩
    exact ⟨item, List.mem_zipIdx_iff_getElem?.mp hMem, hAt⟩
  · intro slot item hItem
    exact hRun.covers (item, slot) (List.mem_zipIdx_iff_getElem?.mpr hItem)
  · have hNodup := hRun.nodup
    rw [List.zipIdx_map_fst] at hNodup
    exact hNodup

end OptnWallet.Fusion
