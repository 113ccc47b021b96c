import OptnWallet.Core.WalletProjection

/-
  The projection depends only on which transactions there are: it holds every owned output of
  theirs and every outpoint they spend, or fails because they cannot be projected.

  Main declarations:
    * `Projectable` and `Projects`
    * `walletProjection_spec`
    * `Projects.unique`
-/

--- Spent Outpoints

namespace OptnWallet

/- The outpoint of an input, unless it is the null one. -/
def spentOutPoint (input : TxId × UInt32 × UInt32) : Option OutPoint :=
  if input.1 = Vector.replicate 32 0 ∧ input.2.1 = 0xffffffff then none
  else some (toLex (input.1, input.2.1))

/- The outpoints that a raw transaction spends. -/
def spendsOf (raw : List UInt8) : List OutPoint :=
  match decode raw with
  | .ok decoded => decoded.inputs.filterMap spentOutPoint
  | .error _ => []

/- Mark outpoints as spent, each for the first time. -/
def spendKeys (txid : TxId) :
    List OutPoint → BTreeMap OutPoint TxId → Except CliError (BTreeMap OutPoint TxId)
  | [], spent => .ok spent
  | key :: keys, spent =>
    if (spent.get? key).isSome then
      .error (.protocol "conflicting transactions require reconciliation before wallet projection")
    else spendKeys txid keys (spent.insert key txid)

theorem spendInputs_eq (txid : TxId) (inputs : List (TxId × UInt32 × UInt32))
    (spent : BTreeMap OutPoint TxId) :
    spendInputs txid inputs spent = spendKeys txid (inputs.filterMap spentOutPoint) spent := by
  induction inputs generalizing spent with
  | nil => rfl
  | cons input inputs ih =>
    rcases input with ⟨previous, vout, sequence⟩
    unfold spendInputs
    by_cases hNull : previous = Vector.replicate 32 0 ∧ vout = 0xffffffff
    · have hSkip : spentOutPoint (previous, vout, sequence) = none := if_pos hNull
      rw [if_pos hNull, List.filterMap_cons_none hSkip]
      exact ih spent
    · have hTake : spentOutPoint (previous, vout, sequence) = some (toLex (previous, vout)) :=
        if_neg hNull
      rw [if_neg hNull, List.filterMap_cons_some hTake]
      unfold spendKeys
      split
      · rfl
      · exact ih _

variable {txid : TxId}

/-
  Spending succeeds where every outpoint is new, and then adds exactly these.  By induction over
  the outpoints.
-/
theorem spendKeys_ok {keys : List OutPoint} {spent spent' : BTreeMap OutPoint TxId}
    (hSpend : spendKeys txid keys spent = .ok spent') :
    keys.Nodup ∧ (∀ key ∈ keys, spent.get? key = none) ∧
        ∀ key,
          spent'.get? key =
            if key ∈ keys then some txid
            else spent.get? key := by
  induction keys generalizing spent with
  | nil =>
    cases hSpend
    simp
  | cons first keys ih =>
    unfold spendKeys at hSpend
    split at hSpend
    · cases hSpend
    rename_i hNew
    rw [Option.not_isSome_iff_eq_none] at hNew
    rcases ih hSpend with ⟨hNodup, hOld, hAfter⟩
    have hFirst : first ∉ keys := by
      intro hMem
      have hTaken := hOld first hMem
      rw [BTreeMap.get?_insert, if_pos rfl] at hTaken
      cases hTaken
    refine ⟨List.nodup_cons.mpr ⟨hFirst, hNodup⟩, ?_, ?_⟩
    · intro key hMem
      rcases List.mem_cons.mp hMem with rfl | hMem
      · exact hNew
      · have hTaken := hOld key hMem
        rw [BTreeMap.get?_insert] at hTaken
        split at hTaken
        · cases hTaken
        · exact hTaken
    · intro key
      rw [hAfter, BTreeMap.get?_insert]
      by_cases hSame : key = first
      · simp [hSame]
      · simp [hSame]

variable {error : CliError}

theorem spendKeys_error {keys : List OutPoint} {spent : BTreeMap OutPoint TxId}
    (hSpend : spendKeys txid keys spent = .error error) (hNodup : keys.Nodup) :
    ∃ key ∈ keys, ∃ txid', spent.get? key = some txid' := by
  induction keys generalizing spent with
  | nil => cases hSpend
  | cons first keys ih =>
    unfold spendKeys at hSpend
    split at hSpend
    · rename_i hTaken
      rcases Option.isSome_iff_exists.mp hTaken with ⟨txid', hTxid⟩
      exact ⟨first, List.mem_cons_self .., txid', hTxid⟩
    · rcases List.nodup_cons.mp hNodup with ⟨hFirst, hRest⟩
      rcases ih hSpend hRest with ⟨key, hMem, txid', hTxid⟩
      refine ⟨key, List.mem_cons_of_mem first hMem, txid', ?_⟩
      rw [BTreeMap.get?_insert, if_neg] at hTxid
      · exact hTxid
      · intro hSame
        rw [hSame] at hMem
        exact hFirst hMem

--- Owned Outputs

namespace UnspentOutput

def key (unspent : UnspentOutput) : OutPoint := toLex (unspent.txid, unspent.vout)

end UnspentOutput

/- Their indexes from `index` on are words. -/
def OwnedInRange (scripts : List (List UInt8)) (index : Nat) (outputs : List DecodedOutput) :
    Prop :=
  ∀ i output, outputs[i]? = some output → output.scriptPubkey ∈ scripts → index + i < 2 ^ 32

variable {index : Nat}

theorem ownedInRange_cons {scripts : List (List UInt8)} {output : DecodedOutput}
    {rest : List DecodedOutput} :
    OwnedInRange scripts index (output :: rest) ↔
    (output.scriptPubkey ∈ scripts → index < 2 ^ 32) ∧ OwnedInRange scripts (index + 1) rest := by
  constructor
  · intro hRange
    constructor
    · intro hOwned
      exact hRange 0 output rfl hOwned
    · intro i other hOther hOwned
      have hLt := hRange (i + 1) other hOther hOwned
      omega
  · rintro ⟨hFirst, hRest⟩ i other hOther hOwned
    cases i with
    | zero =>
      cases hOther
      exact hFirst hOwned
    | succ i =>
      have hLt := hRest i other hOther hOwned
      omega

variable {outputs : List DecodedOutput} {unspent : UnspentOutput}

/- An owned output of a list, by its place in it. -/
theorem mem_ownedFrom_iff {scripts : List (List UInt8)}
    (hRange : OwnedInRange scripts index outputs) :
    unspent ∈ ownedFrom scripts txid index outputs ↔
    unspent.txid = txid ∧ unspent.output.scriptPubkey ∈ scripts ∧
      ∃ i, outputs[i]? = some unspent.output ∧ unspent.vout.toNat = index + i := by
  induction outputs generalizing index with
  | nil => simp [ownedFrom]
  | cons output rest ih =>
    rcases ownedInRange_cons.mp hRange with ⟨hFirst, hRest⟩
    have hCons :
        (∃ i, (output :: rest)[i]? = some unspent.output ∧ unspent.vout.toNat = index + i) ↔
        (output = unspent.output ∧ unspent.vout.toNat = index) ∨
          ∃ i, rest[i]? = some unspent.output ∧ unspent.vout.toNat = index + 1 + i := by
      constructor
      · rintro ⟨i, hOutput, hVout⟩
        cases i with
        | zero => exact Or.inl ⟨Option.some_inj.mp hOutput, hVout⟩
        | succ i => exact Or.inr ⟨i, hOutput, by omega⟩
      · rintro (⟨hOutput, hVout⟩ | ⟨i, hOutput, hVout⟩)
        · exact ⟨0, congrArg some hOutput, hVout⟩
        · exact ⟨i + 1, hOutput, by omega⟩
    rw [hCons]
    unfold ownedFrom
    split
    · rename_i hOwned
      have hLt := hFirst hOwned
      rw [List.mem_cons, ih hRest]
      constructor
      · rintro (rfl | ⟨hTxid, hScript, hPlace⟩)
        · refine ⟨rfl, hOwned, Or.inl ⟨rfl, ?_⟩⟩
          exact UInt32.toNat_ofNat_of_lt hLt
        · exact ⟨hTxid, hScript, Or.inr hPlace⟩
      · rintro ⟨hTxid, hScript, ⟨hOutput, hVout⟩ | hPlace⟩
        · left
          rcases unspent with ⟨txid', vout', output'⟩
          dsimp only at hTxid hOutput hVout
          rw [hTxid, hOutput, ← hVout, UInt32.ofNat_toNat]
        · exact Or.inr ⟨hTxid, hScript, hPlace⟩
    · rename_i hForeign
      rw [ih hRest]
      constructor
      · rintro ⟨hTxid, hScript, hPlace⟩
        exact ⟨hTxid, hScript, Or.inr hPlace⟩
      · rintro ⟨hTxid, hScript, ⟨hOutput, -⟩ | hPlace⟩
        · rw [hOutput] at hForeign
          exact absurd hScript hForeign
        · exact ⟨hTxid, hScript, hPlace⟩

/-
  Collecting succeeds where the indexes are words, and then adds exactly the owned outputs.  By
  induction over the outputs.
-/
theorem collectOutputs_ok {scripts : List (List UInt8)} {map map' : BTreeMap OutPoint UnspentOutput}
    (hCollect : collectOutputs scripts txid index outputs map = .ok map') :
    OwnedInRange scripts index outputs ∧
    ∀ key unspent,
      map'.get? key = some unspent ↔
        (unspent ∈ ownedFrom scripts txid index outputs ∧ unspent.key = key) ∨
          (map.get? key = some unspent ∧ ∀ other ∈ ownedFrom scripts txid index outputs,
            other.key ≠ key) := by
  induction outputs generalizing index map with
  | nil =>
    cases hCollect
    constructor
    · intro i output hOutput
      cases hOutput
    · intro key unspent
      simp [ownedFrom]
  | cons output rest ih =>
    rw [ownedInRange_cons]
    unfold collectOutputs at hCollect
    unfold ownedFrom
    split at hCollect
    · rename_i hOwned
      cases hWord : Word32.tryFrom index with
      | none =>
        rw [hWord] at hCollect
        cases hCollect
      | some vout =>
        rw [hWord] at hCollect
        have hVout := Word32.tryFrom_eq_some hWord
        have hLt := vout.toNat_lt
        have hIndex : UInt32.ofNat index = vout := by rw [← hVout, UInt32.ofNat_toNat]
        rcases ih hCollect with ⟨hRange, hAfter⟩
        refine ⟨⟨fun _ => by omega, hRange⟩, ?_⟩
        rw [if_pos hOwned, hIndex]
        have hLater :
            ∀ other ∈ ownedFrom scripts txid (index + 1) rest, other.key ≠ toLex (txid, vout) := by
          intro other hMem hKey
          rcases (mem_ownedFrom_iff hRange).mp hMem with ⟨-, -, i, -, hPlace⟩
          have hSame : other.vout = vout := congrArg (fun key => (ofLex key).2) hKey
          rw [hSame] at hPlace
          omega
        intro key unspent
        rw [hAfter, BTreeMap.get?_insert, List.forall_mem_cons, List.mem_cons]
        by_cases hKey : key = toLex (txid, vout)
        · subst hKey
          rw [if_pos rfl, Option.some_inj]
          constructor
          · rintro (⟨hMem, hHere⟩ | ⟨rfl, -⟩)
            · exact absurd hHere (hLater unspent hMem)
            · exact Or.inl ⟨Or.inl rfl, rfl⟩
          · rintro (⟨rfl | hMem, hHere⟩ | ⟨-, hNot, -⟩)
            · exact Or.inr ⟨rfl, hLater⟩
            · exact Or.inl ⟨hMem, hHere⟩
            · exact absurd rfl hNot
        · rw [if_neg hKey]
          constructor
          · rintro (⟨hMem, hHere⟩ | ⟨hOld, hRest⟩)
            · exact Or.inl ⟨Or.inr hMem, hHere⟩
            · exact Or.inr ⟨hOld, Ne.symm hKey, hRest⟩
          · rintro (⟨rfl | hMem, hHere⟩ | ⟨hOld, -, hRest⟩)
            · exact absurd hHere.symm hKey
            · exact Or.inl ⟨hMem, hHere⟩
            · exact Or.inr ⟨hOld, hRest⟩
    · rename_i hForeign
      rcases ih hCollect with ⟨hRange, hAfter⟩
      refine ⟨⟨fun hOwned => absurd hOwned hForeign, hRange⟩, ?_⟩
      rw [if_neg hForeign]
      exact hAfter

theorem collectOutputs_error {scripts : List (List UInt8)} {map : BTreeMap OutPoint UnspentOutput}
    (hCollect : collectOutputs scripts txid index outputs map = .error error) :
    ¬ OwnedInRange scripts index outputs := by
  induction outputs generalizing index map with
  | nil => cases hCollect
  | cons output rest ih =>
    rw [ownedInRange_cons]
    unfold collectOutputs at hCollect
    rintro ⟨hFirst, hRest⟩
    split at hCollect
    · rename_i hOwned
      cases hWord : Word32.tryFrom index with
      | none =>
        have hLarge := (Word32.tryFrom_eq_none_iff _).mp hWord
        have hLt := hFirst hOwned
        omega
      | some vout =>
        rw [hWord] at hCollect
        exact ih hCollect hRest
    · exact ih hCollect hRest

--- Sets Of Transactions

variable {sha256 : List UInt8 → Vector UInt8 32} {scripts : List (List UInt8)}

/- The outputs of a raw transaction that pay the scripts. -/
def ownedOf (sha256 : List UInt8 → Vector UInt8 32) (scripts : List (List UInt8))
    (raw : List UInt8) : List UnspentOutput :=
  match decode raw with
  | .ok decoded => ownedFrom scripts (doubleSha256 sha256 raw) 0 decoded.outputs
  | .error _ => []

/-
  Transactions that can be projected: they decode, and no outpoint is spent twice, by one of them
  or by two.
-/
structure Projectable (scripts : List (List UInt8)) (raws : Set (List UInt8)) : Prop where
  decodes : ∀ raw ∈ raws, ∃ decoded, decode raw = .ok decoded
  range : ∀ raw ∈ raws, ∀ decoded, decode raw = .ok decoded → OwnedInRange scripts 0 decoded.outputs
  nodup : ∀ raw ∈ raws, (spendsOf raw).Nodup
  disjoint :
    ∀ raw ∈ raws, ∀ raw' ∈ raws, ∀ key, key ∈ spendsOf raw → key ∈ spendsOf raw' → raw = raw'

/- A projection of exactly these transactions. -/
structure Projects (sha256 : List UInt8 → Vector UInt8 32) (scripts : List (List UInt8))
    (raws : Set (List UInt8)) (projection : WalletProjection) : Prop where
  projectable : Projectable scripts raws
  outputs :
    ∀ key unspent,
    projection.outputs.get? key = some unspent ↔
      unspent.key = key ∧ ∃ raw ∈ raws, unspent ∈ ownedOf sha256 scripts raw
  spent :
    ∀ key txid,
    projection.spent.get? key = some txid ↔
      ∃ raw ∈ raws, txid = doubleSha256 sha256 raw ∧ key ∈ spendsOf raw

variable {raws : Set (List UInt8)}

theorem Projectable.mono {raws' : Set (List UInt8)} (hProjectable : Projectable scripts raws')
    (hSubset : ∀ raw ∈ raws, raw ∈ raws') : Projectable scripts raws := by
  constructor
  · intro raw hMem
    exact hProjectable.decodes raw (hSubset raw hMem)
  · intro raw hMem
    exact hProjectable.range raw (hSubset raw hMem)
  · intro raw hMem
    exact hProjectable.nodup raw (hSubset raw hMem)
  · intro raw hMem raw' hMem'
    exact hProjectable.disjoint raw (hSubset raw hMem) raw' (hSubset raw' hMem')

variable {projection : WalletProjection}

/- There is one projection of the same transactions. -/
theorem Projects.unique {projection' : WalletProjection}
    (hProjects : Projects sha256 scripts raws projection)
    (hProjects' : Projects sha256 scripts raws projection') : projection = projection' := by
  have hOutputs : projection.outputs = projection'.outputs := by
    apply BTreeMap.ext_get?
    intro key
    apply Option.ext
    intro unspent
    rw [hProjects.outputs, hProjects'.outputs]
  have hSpent : projection.spent = projection'.spent := by
    apply BTreeMap.ext_get?
    intro key
    apply Option.ext
    intro txid
    rw [hProjects.spent, hProjects'.spent]
  cases projection
  cases projection'
  cases hOutputs
  cases hSpent
  rfl

variable {raw : List UInt8}

theorem ownedOf_txid
    (hRange : ∀ decoded, decode raw = .ok decoded → OwnedInRange scripts 0 decoded.outputs)
    (hMem : unspent ∈ ownedOf sha256 scripts raw) : unspent.txid = doubleSha256 sha256 raw := by
  unfold ownedOf at hMem
  cases hDecode : decode raw with
  | error error =>
    rw [hDecode] at hMem
    cases hMem
  | ok decoded =>
    rw [hDecode] at hMem
    exact ((mem_ownedFrom_iff (hRange decoded hDecode)).mp hMem).1

variable {decoded : Decoded}

theorem mem_ownedOf_iff (hDecode : decode raw = .ok decoded)
    (hRange : OwnedInRange scripts 0 decoded.outputs) :
    unspent ∈ ownedOf sha256 scripts raw ↔
    unspent.txid = doubleSha256 sha256 raw ∧ unspent.output.scriptPubkey ∈ scripts ∧
      decoded.outputs[unspent.vout.toNat]? = some unspent.output := by
  unfold ownedOf
  rw [hDecode]
  dsimp only
  rw [mem_ownedFrom_iff hRange]
  constructor
  · rintro ⟨hTxid, hScript, i, hOutput, hVout⟩
    rw [Nat.zero_add] at hVout
    rw [hVout]
    exact ⟨hTxid, hScript, hOutput⟩
  · rintro ⟨hTxid, hScript, hOutput⟩
    exact ⟨hTxid, hScript, unspent.vout.toNat, hOutput, (Nat.zero_add _).symm⟩

/- The raw transactions that make an outpoint have one id. -/
theorem Projects.key_ne (hProjects : Projects sha256 scripts raws projection)
    (hNew : ∀ other ∈ raws, doubleSha256 sha256 other ≠ doubleSha256 sha256 raw)
    {other : UnspentOutput} (hOld : projection.outputs.get? unspent.key = some unspent)
    (hTxid : other.txid = doubleSha256 sha256 raw) : other.key ≠ unspent.key := by
  intro hKey
  rcases (hProjects.outputs _ _).mp hOld with ⟨-, made, hMade, hMem⟩
  have hSame : other.txid = unspent.txid := congrArg (fun key => (ofLex key).1) hKey
  apply hNew made hMade
  rw [← hTxid, hSame]
  exact (ownedOf_txid (hProjects.projectable.range made hMade) hMem).symm

theorem spendsOf_of_decode (hDecode : decode raw = .ok decoded) :
    spendsOf raw = decoded.inputs.filterMap spentOutPoint := by
  unfold spendsOf
  rw [hDecode]

theorem ownedOf_of_decode (hDecode : decode raw = .ok decoded) :
    ownedOf sha256 scripts raw = ownedFrom scripts (doubleSha256 sha256 raw) 0 decoded.outputs := by
  unfold ownedOf
  rw [hDecode]

/- One more transaction, where it and no other one spends. -/
theorem Projectable.insert (hProjectable : Projectable scripts raws)
    (hDecode : decode raw = .ok decoded) (hRange : OwnedInRange scripts 0 decoded.outputs)
    (hNodup : (spendsOf raw).Nodup)
    (hApart : ∀ other ∈ raws, ∀ key ∈ spendsOf raw, key ∉ spendsOf other) :
    Projectable scripts (insert raw raws) := by
  constructor
  · rintro other (rfl | hMem)
    · exact ⟨decoded, hDecode⟩
    · exact hProjectable.decodes other hMem
  · rintro other (rfl | hMem) decoded' hDecode'
    · rw [hDecode] at hDecode'
      cases hDecode'
      exact hRange
    · exact hProjectable.range other hMem decoded' hDecode'
  · rintro other (rfl | hMem)
    · exact hNodup
    · exact hProjectable.nodup other hMem
  · rintro first (rfl | hFirst) second (rfl | hSecond) key hKey hKey'
    · rfl
    · exact absurd hKey' (hApart second hSecond key hKey)
    · exact absurd hKey (hApart first hFirst key hKey')
    · exact hProjectable.disjoint first hFirst second hSecond key hKey hKey'

section

variable (hProjects : Projects sha256 scripts raws projection)
variable (hNew : ∀ other ∈ raws, doubleSha256 sha256 other ≠ doubleSha256 sha256 raw)
variable (hDecode : decode raw = .ok decoded)
include hProjects hNew hDecode

/- One more transaction, with an id of its own. -/
theorem projectTransaction_ok {projection' : WalletProjection}
    (hProject :
        projectTransaction scripts projection (doubleSha256 sha256 raw) decoded = .ok projection') :
    Projects sha256 scripts (insert raw raws) projection' := by
  unfold projectTransaction at hProject
  rcases StagedUpdate.bind_eq_ok_iff.mp hProject with ⟨spent, hSpend, hProject⟩
  rcases StagedUpdate.bind_eq_ok_iff.mp hProject with ⟨outputs, hCollect, hProject⟩
  cases hProject
  rw [spendInputs_eq, ← spendsOf_of_decode hDecode] at hSpend
  rcases spendKeys_ok hSpend with ⟨hNodup, hUnspent, hSpent⟩
  rcases collectOutputs_ok hCollect with ⟨hRange, hOutputs⟩
  rw [← ownedOf_of_decode hDecode] at hOutputs
  constructor
  · apply hProjects.projectable.insert hDecode hRange hNodup
    intro other hOther key hKey hSpends
    have hTaken := (hProjects.spent key _).mpr ⟨other, hOther, rfl, hSpends⟩
    rw [hUnspent key hKey] at hTaken
    cases hTaken
  · intro key unspent
    rw [hOutputs]
    constructor
    · rintro (⟨hMem, hKey⟩ | ⟨hOld, -⟩)
      · exact ⟨hKey, raw, Or.inl rfl, hMem⟩
      · rcases (hProjects.outputs key unspent).mp hOld with ⟨hKey, made, hMade, hMem⟩
        exact ⟨hKey, made, Or.inr hMade, hMem⟩
    · rintro ⟨rfl, made, rfl | hMade, hMem⟩
      · exact Or.inl ⟨hMem, rfl⟩
      · have hOld := (hProjects.outputs _ _).mpr ⟨rfl, made, hMade, hMem⟩
        refine Or.inr ⟨hOld, ?_⟩
        intro other hOther
        apply hProjects.key_ne hNew hOld
        exact ((mem_ownedOf_iff hDecode hRange).mp hOther).1
  · intro key txid
    rw [hSpent]
    split
    · rename_i hKey
      constructor
      · intro hTxid
        exact ⟨raw, Or.inl rfl, (Option.some_inj.mp hTxid).symm, hKey⟩
      · rintro ⟨other, rfl | hOther, rfl, hSpends⟩
        · rfl
        · have hTaken := (hProjects.spent key _).mpr ⟨other, hOther, rfl, hSpends⟩
          rw [hUnspent key hKey] at hTaken
          cases hTaken
    · rename_i hKey
      rw [hProjects.spent]
      constructor
      · rintro ⟨other, hOther, hTxid, hSpends⟩
        exact ⟨other, Or.inr hOther, hTxid, hSpends⟩
      · rintro ⟨other, rfl | hOther, hTxid, hSpends⟩
        · exact absurd hSpends hKey
        · exact ⟨other, hOther, hTxid, hSpends⟩

theorem projectTransaction_error
    (hProject :
        projectTransaction scripts projection (doubleSha256 sha256 raw) decoded = .error error) :
    ¬ Projectable scripts (insert raw raws) := by
  intro hProjectable
  have hHere : raw ∈ insert raw raws := Set.mem_insert raw raws
  unfold projectTransaction at hProject
  rw [spendInputs_eq, ← spendsOf_of_decode hDecode] at hProject
  cases hSpend : spendKeys (doubleSha256 sha256 raw) (spendsOf raw) projection.spent with
  | error error' =>
    rcases spendKeys_error hSpend (hProjectable.nodup raw hHere) with ⟨key, hKey, txid, hTaken⟩
    rcases (hProjects.spent key txid).mp hTaken with ⟨other, hOther, -, hSpends⟩
    have hSame :=
      hProjectable.disjoint raw hHere other (Set.mem_insert_of_mem raw hOther) key hKey hSpends
    rw [← hSame] at hOther
    exact hNew raw hOther rfl
  | ok spent =>
    rw [hSpend] at hProject
    cases hCollect : collectOutputs scripts (doubleSha256 sha256 raw) 0 decoded.outputs
      projection.outputs with
    | error error' =>
      exact collectOutputs_error hCollect (hProjectable.range raw hHere decoded hDecode)
    | ok outputs =>
      dsimp only [bind, Except.bind] at hProject
      rw [hCollect] at hProject
      cases hProject

end

/- The ids of these transactions are their own. -/
def CollisionFree (sha256 : List UInt8 → Vector UInt8 32) (raws : Set (List UInt8)) : Prop :=
  ∀ raw ∈ raws, ∀ raw' ∈ raws, doubleSha256 sha256 raw = doubleSha256 sha256 raw' → raw = raw'

/-
  By induction over the transactions that are left: those already seen change nothing.
-/
theorem projectFrom_spec {seen : Finset TxId}
    {rest : List (List UInt8)}
    (hProjects : Projects sha256 scripts raws projection)
    (hSeen : ∀ txid, txid ∈ seen ↔ ∃ raw ∈ raws, doubleSha256 sha256 raw = txid)
    (hFree : CollisionFree sha256 (raws ∪ {raw | raw ∈ rest})) :
    match projectFrom sha256 scripts seen projection rest with
    | .ok projection' => Projects sha256 scripts (raws ∪ {raw | raw ∈ rest}) projection'
    | .error _ => ¬ Projectable scripts (raws ∪ {raw | raw ∈ rest}) := by
  induction rest generalizing raws seen projection with
  | nil =>
    have hNone : raws ∪ {raw | raw ∈ ([] : List (List UInt8))} = raws := by simp
    rw [hNone]
    exact hProjects
  | cons raw rest ih =>
    have hMove :
        raws ∪ {other | other ∈ raw :: rest} = insert raw raws ∪ {other | other ∈ rest} := by
      ext other
      simp only [Set.mem_union, Set.mem_ofPred_eq, List.mem_cons, Set.mem_insert_iff]
      tauto
    have hHere : raw ∈ raws ∪ {other | other ∈ raw :: rest} := Or.inr (List.mem_cons_self ..)
    unfold projectFrom
    dsimp only
    by_cases hOld : doubleSha256 sha256 raw ∈ seen
    · -- the id was seen, and so was the transaction
      rcases (hSeen _).mp hOld with ⟨made, hMade, hTxid⟩
      have hSame := hFree made (Or.inl hMade) raw hHere hTxid
      subst hSame
      rw [Set.insert_eq_of_mem hMade] at hMove
      rw [if_pos hOld, hMove]
      rw [hMove] at hFree
      exact ih hProjects hSeen hFree
    · rw [if_neg hOld]
      have hNew : ∀ other ∈ raws, doubleSha256 sha256 other ≠ doubleSha256 sha256 raw := by
        intro other hOther hTxid
        exact hOld ((hSeen _).mpr ⟨other, hOther, hTxid⟩)
      cases hDecode : decode raw with
      | error error =>
        intro hProjectable
        rcases hProjectable.decodes raw hHere with ⟨decoded, hDecoded⟩
        rw [hDecode] at hDecoded
        cases hDecoded
      | ok decoded =>
        cases hProject : projectTransaction scripts projection (doubleSha256 sha256 raw)
          decoded with
        | error error =>
          dsimp only [bind, Except.bind]
          rw [hProject]
          intro hProjectable
          apply projectTransaction_error hProjects hNew hDecode hProject
          apply hProjectable.mono
          rintro other (rfl | hOther)
          · exact hHere
          · exact Or.inl hOther
        | ok projection' =>
          dsimp only [bind, Except.bind]
          rw [hProject, hMove]
          rw [hMove] at hFree
          apply ih _ _ hFree
          · exact projectTransaction_ok hProjects hNew hDecode hProject
          · intro txid
            rw [Finset.mem_insert, hSeen]
            constructor
            · rintro (rfl | ⟨other, hOther, hTxid⟩)
              · exact ⟨raw, Or.inl rfl, rfl⟩
              · exact ⟨other, Or.inr hOther, hTxid⟩
            · rintro ⟨other, rfl | hOther, hTxid⟩
              · exact Or.inl hTxid.symm
              · exact Or.inr ⟨other, hOther, hTxid⟩

/- The transactions of a list, as a set. -/
theorem walletProjection_spec (scripts : List (List UInt8)) {transactions : List (List UInt8)}
    (hFree : CollisionFree sha256 {raw | raw ∈ transactions}) :
    match walletProjection sha256 transactions scripts with
    | .ok projection => Projects sha256 scripts {raw | raw ∈ transactions} projection
    | .error _ => ¬ Projectable scripts {raw | raw ∈ transactions} := by
  have hEmpty :
      Projects sha256 scripts ∅
        { outputs := BTreeMap.new
          spent := BTreeMap.new } := by
    refine ⟨⟨?_, ?_, ?_, ?_⟩, ?_, ?_⟩
    · rintro raw ⟨⟩
    · rintro raw ⟨⟩
    · rintro raw ⟨⟩
    · rintro raw ⟨⟩
    · simp
    · simp
  have hUnion : (∅ : Set (List UInt8)) ∪ {raw | raw ∈ transactions} = {raw | raw ∈ transactions} :=
    Set.empty_union _
  rw [← hUnion] at hFree ⊢
  apply projectFrom_spec hEmpty _ hFree
  simp

end OptnWallet
