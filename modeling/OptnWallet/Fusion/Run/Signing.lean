import OptnWallet.Fusion.Ownership
import OptnWallet.Fusion.Run

/-
  The signatures of a round are for the own inputs of the transaction, one for each of them, in
  the slots of their own components.

  Main declarations:
    * `Fusion.SignsInput`
    * `Fusion.SafeSigning`
    * `Fusion.safeSigning_of_prepare`
-/

--- Own Signatures

namespace OptnWallet.Fusion

open StagedUpdate
open Schnorr (Curve fromRepr)

variable {n : Nat} {Point : Type} [AddCommGroup Point] [Module (ZMod n) Point] [DecidableEq Point]
variable (curve : Curve n Point) (sha256 : List UInt8 → Vector UInt8 32)
variable (ripemd160 : List UInt8 → Vector UInt8 20)
variable (hmac : List UInt8 → List UInt8 → Vector UInt8 32)

/- The message in this slot signs this input of the transaction with the key that owns it, and the
   component of the input is the one of the slot. -/
structure SignsInput (fuel : Nat) (allComponents ownComponents : List (List UInt8))
    (roundPubkey : List UInt8) (tx : FusionTx) (slot index : Nat) (key : FusionInputKey)
    (message : CovertSignature) : Prop where
  input : ∃ input, tx.inputs[index]? = some input ∧ ownInput key = .ok input
  component :
    ∃ place bytes, tx.inputComponentIdx[index]? = some place ∧
      allComponents[place]? = some bytes ∧ ownComponents[slot]? = some bytes
  signature :
    ∃ sighash secret,
      tx.sighash sha256 ripemd160 index = .ok sighash ∧
        fromRepr (n := n) key.privkey = some secret ∧
          Schnorr.sign curve sha256 hmac fuel secret sighash = .ok message.txsignature
  roundPubkey : message.roundPubkey = roundPubkey
  whichInput : message.whichInput = UInt32.ofNat index

section Loop

variable {curve sha256 ripemd160 hmac} {components : Wire Component} {fuel : Nat}
variable {inputs : List FusionInputKey} {allComponents ownComponents : List (List UInt8)}
variable {componentSlots : BTreeMap Nat Nat} {roundPubkey : List UInt8} {tx : FusionTx}
variable {sessionHash : Vector UInt8 32}

/- What is known once these inputs were gone through. -/
structure Signed (curve : Curve n Point) (sha256 : List UInt8 → Vector UInt8 32)
    (ripemd160 : List UInt8 → Vector UInt8 20) (hmac : List UInt8 → List UInt8 → Vector UInt8 32)
    (fuel : Nat) (inputs : List FusionInputKey) (allComponents ownComponents : List (List UInt8))
    (roundPubkey : List UInt8) (tx : FusionTx) (done : List Nat) (state : Signing) : Prop where
  sound :
    ∀ slot message, state.messages[slot]? = some (some message) → ∃ index ∈ done, ∃ key ∈ inputs,
        SignsInput curve sha256 ripemd160 hmac fuel allComponents ownComponents roundPubkey tx slot
          index key message
  complete :
    ∀ index ∈ done,
    ∀ input,
      tx.inputs[index]? = some input → (∃ key ∈ inputs, ownInput key = .ok input) →
        ∃ slot message,
          state.messages[slot]? = some (some message) ∧ ∃ key ∈ inputs,
              SignsInput curve sha256 ripemd160 hmac fuel allComponents ownComponents roundPubkey tx
                slot index key message

variable {index : Nat}

/- An input of the transaction is the component at its place. -/
theorem input_at_place (hTx : Rebuilt components allComponents sessionHash tx) {place : Nat}
    {bytes : List UInt8} {input : TxInput} (hPlace : tx.inputComponentIdx[index]? = some place)
    (hBytes : allComponents[place]? = some bytes) (hInput : tx.inputs[index]? = some input) :
    inputOf components bytes = some input.component := by
  have hLt := (List.getElem?_eq_some_iff.mp hInput).1
  have hLt' := (List.getElem?_eq_some_iff.mp hPlace).1
  have hAt := hTx.places.get hLt hLt'
  rw [List.get_eq_getElem, List.get_eq_getElem] at hAt
  rw [List.getElem?_eq_getElem hLt] at hInput
  rw [List.getElem?_eq_getElem hLt'] at hPlace
  rw [Option.some.inj hInput, Option.some.inj hPlace] at hAt
  rcases hAt with ⟨other, hOther, hComponent⟩
  rw [hBytes] at hOther
  rw [Option.some.inj hOther]
  exact hComponent

/- The one slot that changes was empty before. -/
theorem signed_set {done : List Nat} {state : Signing}
    (hSigned :
        Signed curve sha256 ripemd160 hmac fuel inputs allComponents ownComponents roundPubkey tx
          done state) {slot : Nat} {key : FusionInputKey} {message : CovertSignature}
    (hEmpty : state.messages[slot]? = some none) (hKey : key ∈ inputs)
    (hSigns :
        SignsInput curve sha256 ripemd160 hmac fuel allComponents ownComponents roundPubkey tx slot
          index key message) (count : Nat) :
    Signed curve sha256 ripemd160 hmac fuel inputs allComponents
      ownComponents roundPubkey tx (done ++ [index])
      { messages := state.messages.set slot (some message)
        signedInputs := count } := by
  have hLt := (List.getElem?_eq_some_iff.mp hEmpty).1
  constructor
  · intro other found hFound
    change (state.messages.set slot (some message))[other]? = some (some found) at hFound
    by_cases hSame : slot = other
    · rw [← hSame, List.getElem?_set_self hLt] at hFound
      rw [← hSame, ← Option.some.inj (Option.some.inj hFound)]
      refine ⟨index, ?_, key, hKey, hSigns⟩
      exact List.mem_append_right _ List.mem_cons_self
    · rw [List.getElem?_set_ne hSame] at hFound
      rcases hSigned.sound other found hFound with ⟨at', hMem, owner, hOwner, hOther⟩
      exact ⟨at', List.mem_append_left _ hMem, owner, hOwner, hOther⟩
  · intro at' hMem input hInput hOwn
    rcases List.mem_append.mp hMem with hOld | hNew
    · rcases hSigned.complete at' hOld input hInput hOwn with
        ⟨other, found, hFound, owner, hOwner, hOther⟩
      refine ⟨other, found, ?_, owner, hOwner, hOther⟩
      change (state.messages.set slot (some message))[other]? = some (some found)
      rw [List.getElem?_set_ne]
      · exact hFound
      · intro hSame
        rw [← hSame, hEmpty] at hFound
        cases hFound
    · rw [List.mem_singleton.mp hNew]
      refine ⟨slot, message, ?_, key, hKey, hSigns⟩
      exact List.getElem?_set_self hLt

theorem signed_skip {done : List Nat} {state : Signing}
    (hSigned :
      Signed curve sha256 ripemd160 hmac fuel inputs allComponents ownComponents roundPubkey tx done
        state)
    (hForeign : ∀ input, tx.inputs[index]? = some input → ∀ key ∈ inputs, ownInput key ≠ .ok input)
      :
    Signed curve sha256 ripemd160 hmac fuel inputs allComponents ownComponents roundPubkey tx
      (done ++ [index]) state := by
  constructor
  · intro slot message hMessage
    rcases hSigned.sound slot message hMessage with ⟨at', hMem, hRest⟩
    exact ⟨at', List.mem_append_left _ hMem, hRest⟩
  · intro at' hMem input hInput hOwn
    rcases List.mem_append.mp hMem with hOld | hNew
    · exact hSigned.complete at' hOld input hInput hOwn
    · rw [List.mem_singleton.mp hNew] at hInput
      rcases hOwn with ⟨key, hKey, hOwn⟩
      exact absurd hOwn (hForeign input hInput key hKey)

section

variable (hTx : Rebuilt components allComponents sessionHash tx)
variable (hSlots : OwnSlots ownComponents allComponents componentSlots)
include hTx hSlots

/- One input of the transaction: it is an own one or it is left alone. -/
theorem signed_step (done : List Nat) (state : Signing) (index : Nat) (next : Signing)
    (hSigned :
      Signed curve sha256 ripemd160 hmac fuel inputs allComponents ownComponents roundPubkey tx done
        state)
    (hStep :
        signInput sha256 components curve ripemd160 hmac fuel inputs allComponents componentSlots
            roundPubkey tx state index = .ok next) :
    Signed curve sha256 ripemd160 hmac fuel inputs allComponents ownComponents roundPubkey tx
      (done ++ [index]) next := by
  unfold signInput at hStep
  rcases bind_eq_ok_iff.mp hStep with ⟨place, hPlace, hStep⟩
  rcases bind_eq_ok_iff.mp hStep with ⟨bytes, hBytes, hStep⟩
  rcases bind_eq_ok_iff.mp hStep with ⟨component, hDecode, hStep⟩
  have hPlace' := okOr_eq_ok_iff.mp (mapError_eq_ok_iff.mp hPlace)
  have hBytes' := orPanic_eq_ok_iff.mp hBytes
  have hPart : partOf components bytes = component.component := by
    unfold partOf
    rw [mapError_eq_ok_iff.mp hDecode]
  have hInputOf := inputOf_of_part hPart
  split at hStep
  · rename_i shared hShared
    rw [hShared] at hInputOf
    rcases bind_eq_ok_iff.mp hStep with ⟨own, hOwn, hStep⟩
    have hFind := mapError_eq_ok_iff.mp hOwn
    cases own with
    | none =>
      rw [← Except.ok.inj hStep]
      apply signed_skip hSigned
      intro input hInput key hKey hOwnInput
      have hSame := input_at_place hTx hPlace' hBytes' hInput
      rw [hInputOf] at hSame
      have hNo := Matching.of_findFirst_none hFind key hKey
      have hYes : inputMatchesComponent key shared = .ok true :=
        matches_iff.mpr ⟨input, hOwnInput, (Option.some.inj hSame).symm⟩
      rw [hYes] at hNo
      cases hNo
    | some key =>
      rcases Matching.mem_of_findFirst hFind with ⟨hKey, hMatch⟩
      rcases matches_iff.mp hMatch with ⟨input, hOwnInput, hComponent⟩
      dsimp only at hStep
      rcases bind_eq_ok_iff.mp hStep with ⟨sighash, hSighash, hStep⟩
      rcases bind_eq_ok_iff.mp hStep with ⟨secret, hSecret, hStep⟩
      rcases bind_eq_ok_iff.mp hStep with ⟨signature, hSignature, hStep⟩
      rcases bind_eq_ok_iff.mp hStep with ⟨slot, hSlot, hStep⟩
      have hSighash' := mapError_eq_ok_iff.mp hSighash
      have hGet := okOr_eq_ok_iff.mp (mapError_eq_ok_iff.mp hSlot)
      rcases hSlots.sound place slot hGet with ⟨item, hItem, hAt⟩
      have hHere : ∃ found, tx.inputs[index]? = some found := by
        unfold FusionTx.sighash at hSighash'
        split at hSighash'
        · rename_i found hFound
          exact ⟨found, hFound⟩
        · cases hSighash'
      rcases hHere with ⟨found, hFound⟩
      have hSame := input_at_place hTx hPlace' hBytes' hFound
      rw [hInputOf] at hSame
      have hInput : found = input := by
        apply TxInput.component_injective
        rw [hComponent]
        exact (Option.some.inj hSame).symm
      rw [hInput] at hFound
      split at hStep
      · cases hStep
      · cases hStep
      · rename_i hEmpty
        rw [← Except.ok.inj hStep]
        apply signed_set hSigned hEmpty hKey
        constructor
        · exact ⟨input, hFound, hOwnInput⟩
        · refine ⟨place, item, hPlace', hAt, hItem⟩
        · refine ⟨sighash, secret, hSighash', ?_, hSignature⟩
          have hScalar := mapError_eq_ok_iff.mp hSecret
          unfold scalarFromPrivkey at hScalar
          split at hScalar
          · rename_i scalar hScalar'
            rw [hScalar', Except.ok.inj hScalar]
          · cases hScalar
        · rfl
        · rfl
  · rename_i hNot
    rw [← Except.ok.inj hStep]
    apply signed_skip hSigned
    intro input hInput key _ _
    have hSame := input_at_place hTx hPlace' hBytes' hInput
    rw [hInputOf] at hSame
    cases hPartHere : component.component with
    | none =>
      rw [hPartHere] at hSame
      cases hSame
    | some part =>
      cases part with
      | input shared => exact hNot shared hPartHere
      | output shared =>
        rw [hPartHere] at hSame
        cases hSame
      | blank =>
        rw [hPartHere] at hSame
        cases hSame

theorem signed_of_signInputs {slotCount : Nat} {messages : List (Option CovertSignature)}
    (hSign :
        signInputs sha256 components curve ripemd160 hmac fuel inputs allComponents componentSlots
            roundPubkey slotCount tx = .ok messages) :
    ∃ state : Signing,
    state.messages = messages ∧
      Signed curve sha256 ripemd160 hmac fuel inputs allComponents ownComponents roundPubkey tx
        (List.range tx.numInputs) state := by
  unfold signInputs at hSign
  rcases bind_eq_ok_iff.mp hSign with ⟨state, hRun, hSign⟩
  split at hSign
  · cases hSign
  have hStart :
      Signed curve sha256 ripemd160 hmac fuel inputs allComponents ownComponents roundPubkey tx []
        { messages := List.replicate slotCount none
          signedInputs := 0 } := by
    constructor
    · intro slot message hMessage
      have hMem := List.mem_of_getElem? hMessage
      cases List.eq_of_mem_replicate hMem
    · exact List.forall_mem_nil _
  have hAll := foldlM_invariant (signed_step hTx hSlots) hStart hRun
  exact ⟨state, Except.ok.inj hSign, hAll⟩

end

variable {planned : List (List UInt8 × UInt64)}

section

variable (hTx : Rebuilt components allComponents sessionHash tx)
variable (hShare : ShareChecked components allComponents inputs planned)
include hTx hShare

/- The transaction is checked from what was shared alone. -/
theorem outpoints_nodup : (tx.inputs.map TxInput.outpoint).Nodup := by
  have hOutpoints := hShare.outpoints
  rw [← hTx.inputs, List.map_map] at hOutpoints
  have hFactor :
      InputComponent.outpoint ∘ TxInput.component =
        (fun point => (point.1.toList, point.2)) ∘ TxInput.outpoint := rfl
  rw [hFactor, ← List.map_map] at hOutpoints
  exact hOutpoints.of_map _

theorem value_balanced :
    (tx.outputs.map (fun output => output.value.toNat)).sum ≤
      (tx.inputs.map (fun input => input.value.toNat)).sum := by
  have hBalanced := hShare.balanced
  rw [← hTx.inputs, List.map_map] at hBalanced
  rw [hTx.outputs, List.map_cons, List.map_map, List.sum_cons]
  have hMarker : (FusionTx.marker sessionHash).value.toNat = 0 := rfl
  rw [hMarker, Nat.zero_add]
  exact hBalanced

theorem owned_subperm : ∃ owned, inputs.mapM ownInput = .ok owned ∧ owned.Subperm tx.inputs := by
  rcases hShare.ownInputs with ⟨owned, hOwned, hSub⟩
  refine ⟨owned, hOwned, ?_⟩
  rw [← hTx.inputs] at hSub
  rcases hSub with ⟨part, hPerm, hSublist⟩
  rcases List.sublist_map_iff.mp hSublist with ⟨chosen, hChosen, rfl⟩
  refine ⟨chosen, ?_, hChosen⟩
  exact (List.map_perm_map_iff TxInput.component_injective).mp hPerm

end

theorem map_of_mapM {α β ε : Type} {f : α → Except ε β} {items : List α} {images : List β}
    (hMap : items.mapM f = .ok images) : items.map f = images.map Except.ok := by
  induction items generalizing images with
  | nil =>
    cases hMap
    rfl
  | cons item items ih =>
    rw [List.mapM_cons] at hMap
    rcases bind_eq_ok_iff.mp hMap with ⟨first, hFirst, hMap⟩
    rcases bind_eq_ok_iff.mp hMap with ⟨rest, hRest, hMap⟩
    cases hMap
    rw [List.map_cons, List.map_cons, hFirst, ih hRest]

/- No two keys of the wallet are for one input. -/
theorem own_key_unique {owned : List TxInput} (hOwned : inputs.mapM ownInput = .ok owned)
    (hSub : owned.Subperm tx.inputs) (hNodup : (tx.inputs.map TxInput.outpoint).Nodup)
    {first second : FusionInputKey} (hFirst : first ∈ inputs) (hSecond : second ∈ inputs)
    (hSame : ownInput first = ownInput second) : first = second := by
  rcases hSub with ⟨part, hPerm, hSublist⟩
  have hPart := hSublist.nodup (hNodup.of_map _)
  have hImages : (inputs.map ownInput).Nodup := by
    rw [map_of_mapM hOwned]
    apply List.Nodup.map
    · intro a b hEq
      exact Except.ok.inj hEq
    · exact hPerm.nodup_iff.mp hPart
  exact List.inj_on_of_nodup_map hImages hFirst hSecond hSame

end Loop

/- What a round signs, and what its signatures cover. -/
structure SafeSigning (components : Wire Component) (fuel : Nat) (inputs : List FusionInputKey)
    (planned : List FusionOutput) (transcript : Transcript n Point) (sessionHash : Vector UInt8 32)
    (tx : FusionTx) (messages : List (Option CovertSignature)) : Prop where
  rebuilt : FusionTx.fromComponents components transcript.allComponents.blobs sessionHash = .ok tx
  outpoints : (tx.inputs.map TxInput.outpoint).Nodup
  balanced :
    (tx.outputs.map (fun output => output.value.toNat)).sum ≤
      (tx.inputs.map (fun input => input.value.toNat)).sum
  ownInputs : ∃ owned, inputs.mapM ownInput = .ok owned ∧ owned.Subperm tx.inputs
  ownOutputs :
    ∃ shared,
      tx.outputs = FusionTx.marker sessionHash :: shared ∧ (planned.map
          (fun output =>
            ({ value := output.value, script := output.scriptpubkey } : TxOutput))).Subperm shared
  onlyOwn :
    ∀ slot message,
    messages[slot]? = some (some message) → ∃ index,
        ∃ key ∈ inputs,
          SignsInput curve sha256 ripemd160 hmac fuel transcript.allComponents.blobs
            transcript.committed.commit.componentsSorted transcript.committed.roundPubkey.bytes tx
            slot index key message
  eachOnce :
    ∀ key ∈ inputs,
    ∃! slot,
      ∃ index message,
        messages[slot]? = some (some message) ∧
          SignsInput curve sha256 ripemd160 hmac fuel transcript.allComponents.blobs
            transcript.committed.commit.componentsSorted transcript.committed.roundPubkey.bytes tx
            slot index key message

variable {curve sha256 ripemd160 hmac}

/- An input of the transaction is signed in one slot. -/
theorem slot_unique {fuel : Nat} {allComponents ownComponents : List (List UInt8)}
    {roundPubkey : List UInt8} {tx : FusionTx} (hNodup : (tx.inputs.map TxInput.outpoint).Nodup)
    (hOwn : ownComponents.Nodup) {slot slot' index index' : Nat} {key : FusionInputKey}
    {message message' : CovertSignature}
    (hFirst :
      SignsInput curve sha256 ripemd160 hmac fuel allComponents ownComponents roundPubkey tx slot
        index key message)
    (hSecond :
        SignsInput curve sha256 ripemd160 hmac fuel allComponents ownComponents roundPubkey tx slot'
          index' key message') : slot' = slot := by
  rcases hFirst.input with ⟨input, hInput, hOwnInput⟩
  rcases hSecond.input with ⟨input', hInput', hOwnInput'⟩
  rw [hOwnInput] at hOwnInput'
  rw [← Except.ok.inj hOwnInput', ← hInput] at hInput'
  have hLt := (List.getElem?_eq_some_iff.mp hInput).1
  have hIndex : index = index' := (List.getElem?_inj hLt (hNodup.of_map _)).mp hInput'.symm
  rcases hFirst.component with ⟨place, bytes, hPlace, hBytes, hSlot⟩
  rcases hSecond.component with ⟨place', bytes', hPlace', hBytes', hSlot'⟩
  rw [← hIndex, hPlace] at hPlace'
  rw [← Option.some.inj hPlace', hBytes] at hBytes'
  rw [← Option.some.inj hBytes', ← hSlot] at hSlot'
  have hLt' := (List.getElem?_eq_some_iff.mp hSlot).1
  exact ((List.getElem?_inj hLt' hOwn).mp hSlot'.symm).symm

theorem safeSigning_of_prepare {components : Wire Component} {fuel : Nat} {params : FusionRunParams}
    {session : FusionSession}
    (hScripts : session.outputScripts = params.outputScripts.take session.plan.outputValues.length)
    {transcript : Transcript n Point} {located : Located}
    (hLocate : locate sha256 transcript = .ok located) {here : RoundWorld n} {tx : FusionTx}
    {messages : List (Option CovertSignature)}
    (hPrepare :
        prepareSignatures sha256 components curve ripemd160 hmac fuel params session transcript
            located here = .ok (tx, messages)) :
    SafeSigning curve sha256 ripemd160 hmac components fuel params.inputs
      (plannedOutputs params.outputScripts session.plan) transcript located.sessionHash tx
      messages := by
  unfold prepareSignatures at hPrepare
  rcases bind_eq_ok_iff.mp hPrepare with ⟨done, -, hPrepare⟩
  rcases bind_eq_ok_iff.mp hPrepare with ⟨checked, hVerify, hPrepare⟩
  rcases bind_eq_ok_iff.mp hPrepare with ⟨built, hTx, hPrepare⟩
  rcases bind_eq_ok_iff.mp hPrepare with ⟨batch, hSign, hPrepare⟩
  have hShare := shareChecked_of_verify (mapError_eq_ok_iff.mp hVerify)
  have hFrom := mapError_eq_ok_iff.mp hTx
  have hRebuilt := rebuilt_of_fromComponents hFrom
  have hSlots :
      OwnSlots transcript.committed.commit.componentsSorted transcript.allComponents.blobs
        located.componentSlots := by
    unfold locate at hLocate
    rcases bind_eq_ok_iff.mp hLocate with ⟨_, -, hLocate⟩
    rcases bind_eq_ok_iff.mp hLocate with ⟨_, -, hLocate⟩
    rcases bind_eq_ok_iff.mp hLocate with ⟨slots, hMap, hLocate⟩
    rcases bind_eq_ok_iff.mp hLocate with ⟨_, -, hLocate⟩
    rcases bind_eq_ok_iff.mp hLocate with ⟨_, -, hLocate⟩
    rw [← Except.ok.inj hLocate]
    exact ownSlots_of_map hMap
  rcases signed_of_signInputs hRebuilt hSlots hSign with ⟨state, rfl, hSigned⟩
  split at hPrepare
  · cases hPrepare
    have hNodup := outpoints_nodup hRebuilt hShare
    rcases owned_subperm hRebuilt hShare with ⟨owned, hOwned, hSub⟩
    constructor
    · exact hFrom
    · exact hNodup
    · exact value_balanced hRebuilt hShare
    · exact ⟨owned, hOwned, hSub⟩
    · refine ⟨_, hRebuilt.outputs, ?_⟩
      rcases hShare.ownOutputs with ⟨part, hPerm, hSublist⟩
      have hOutputs := hPerm.map OutputComponent.output
      unfold plannedOutputs
      rw [List.map_map, ← hScripts]
      rw [List.map_map] at hOutputs
      exact ⟨_, hOutputs, hSublist.map _⟩
    · intro slot message hMessage
      rcases hSigned.sound slot message hMessage with ⟨index, -, hRest⟩
      exact ⟨index, hRest⟩
    · intro key hKey
      rcases exists_of_mapM hOwned hKey with ⟨input, hInput⟩
      have hMem : input ∈ tx.inputs := hSub.subset ((mem_of_mapM hOwned).mpr ⟨key, hKey, hInput⟩)
      rcases List.mem_iff_getElem?.mp hMem with ⟨index, hAt⟩
      have hRange : index ∈ List.range tx.numInputs :=
        List.mem_range.mpr (List.getElem?_eq_some_iff.mp hAt).1
      rcases hSigned.complete index hRange input hAt ⟨key, hKey, hInput⟩ with
        ⟨slot, message, hMessage, owner, hOwner, hSigns⟩
      have hSame : owner = key := by
        apply own_key_unique hOwned hSub hNodup hOwner hKey
        rcases hSigns.input with ⟨other, hOther, hOwnOther⟩
        rw [hAt] at hOther
        rw [hInput, hOwnOther, Option.some.inj hOther]
      rw [hSame] at hSigns
      refine ⟨slot, ⟨index, message, hMessage, hSigns⟩, ?_⟩
      rintro slot' ⟨index', message', -, hSigns'⟩
      exact slot_unique hNodup hSlots.nodup hSigns hSigns'
  · cases hPrepare

end OptnWallet.Fusion
