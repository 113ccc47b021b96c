import Mathlib.Data.List.Induction
import OptnWallet.Runtime.HeaderStore

/-
  What holds of the retained headers over whole runs: the links between neighbours, the stability
  of a generation and the exactness of the reverse index.

  Main declarations:
    * `StoreOp.linked_throughout_iff`
    * `StoreOp.index_exact_throughout_iff`
    * `StoreOp.generation_stable_iff`
-/

--- Lookups After An Operation

namespace OptnWallet

namespace StoreOp

variable {H : Type} [DecidableEq H] [Hash32 H]

omit [DecidableEq H] [Hash32 H] in
theorem strips_hash (op : StoreOp H) (height : UInt32) (entry : Retained H) :
    (op.strips height entry).hash = entry.hash := by
  unfold strips
  split
  · split
    · rfl
    · rfl
  · rfl

variable {op : StoreOp H}

omit [DecidableEq H] [Hash32 H] in
theorem strips_header {height : UInt32} {entry : Retained H} {header : BlockHeaderBytes}
    (hHeader : (op.strips height entry).header = some header) : entry.header = some header := by
  unfold strips at hHeader
  split at hHeader
  · split at hHeader
    · cases hHeader
    · exact hHeader
  · exact hHeader

theorem hashAt_apply (headers : RetainedHeaders H) (op : StoreOp H) (height : UInt32) :
    (apply headers op).hashAt height =
      match op.inserts headers with
      | some (place, entry) =>
        if height = place then some entry.hash
        else headers.hashAt height
      | none =>
        if op.removes height then none
        else headers.hashAt height := by
  unfold RetainedHeaders.hashAt
  rw [get?_apply]
  cases op.inserts headers with
  | some inserted =>
    dsimp only
    split
    · rfl
    · rfl
  | none =>
    dsimp only
    split
    · rfl
    · rw [Option.map_map]
      congr 1
      funext entry
      exact strips_hash op height entry

theorem headerAt_apply_of_inserts {headers : RetainedHeaders H} {place : UInt32}
    {entry : Retained H} (hInserts : op.inserts headers = some (place, entry)) (height : UInt32) :
    (apply headers op).headerAt height =
      if height = place then entry.header
      else headers.headerAt height := by
  unfold RetainedHeaders.headerAt
  rw [get?_apply, hInserts]
  dsimp only
  split
  · rfl
  · rfl

/- Nothing but an insertion brings a header. -/
theorem headerAt_of_apply {headers : RetainedHeaders H} (hInserts : op.inserts headers = none)
    {height : UInt32} {header : BlockHeaderBytes}
    (hHeader : (apply headers op).headerAt height = some header) :
    headers.headerAt height = some header := by
  unfold RetainedHeaders.headerAt at hHeader ⊢
  rw [get?_apply, hInserts] at hHeader
  dsimp only at hHeader
  split at hHeader
  · cases hHeader
  · rw [Option.bind_eq_some_iff] at hHeader ⊢
    rcases hHeader with ⟨stripped, hEntry, hHeader⟩
    rcases Option.map_eq_some_iff.mp hEntry with ⟨entry, hOld, rfl⟩
    exact ⟨entry, hOld, strips_header hHeader⟩

end StoreOp

--- Linked Neighbours

namespace RetainedHeaders

variable {H : Type} [DecidableEq H] [Hash32 H]

/-
  A retained header names the hash that is retained beneath it.
-/
omit [DecidableEq H] in
def Linked (headers : RetainedHeaders H) : Prop :=
  ∀ height next hash header,
    next.toNat = height.toNat + 1 → headers.hashAt height = some hash →
      headers.headerAt next = some header →
      prevHash header = hash

/-
  What an operation inserts is the hash that the header retained above it names, if there is one.
-/
def FitsBeneath (headers : RetainedHeaders H) (op : StoreOp H) : Prop :=
  ∀ place entry next header,
    op.inserts headers = some (place, entry) → next.toNat = place.toNat + 1 →
      headers.headerAt next = some header →
      prevHash header = entry.hash

theorem prevHash_of_linksTo {headers : RetainedHeaders H} {height next : UInt32} {hash : H}
    {header : BlockHeaderBytes} (hLinks : headers.linksTo next header = true)
    (hNext : next.toNat = height.toNat + 1) (hHash : headers.hashAt height = some hash) :
    prevHash header = hash := by
  have hBefore : Word32.checkedSub next 1 = some height :=
    Word32.checkedSub_one_eq_some_iff.mpr hNext
  rcases Option.map_eq_some_iff.mp hHash with ⟨previous, hPrevious, rfl⟩
  unfold linksTo at hLinks
  rw [hBefore, Option.bind_some, hPrevious] at hLinks
  exact of_decide_eq_true hLinks

end RetainedHeaders

namespace StoreOp

variable {H : Type} [DecidableEq H] [Hash32 H]

/- An inserted header was checked against the one beneath. -/
theorem linksTo_of_inserts {headers : RetainedHeaders H} {op : StoreOp H} {place : UInt32}
    {entry : Retained H} {header : BlockHeaderBytes}
    (hInserts : op.inserts headers = some (place, entry)) (hHeader : entry.header = some header) :
    headers.linksTo place header = true := by
  cases op with
  | insertVerified height inserted =>
    unfold inserts at hInserts
    dsimp only at hInserts
    split at hInserts
    · rename_i hLinks
      cases hInserts
      cases hHeader
      exact hLinks
    · cases hInserts
  | insertHashOnly height hash =>
    cases hInserts
    cases hHeader
  | pruneBelow bound => cases hInserts
  | dropHeadersBelow bound => cases hInserts
  | rewindTo bound => cases hInserts

/-
  The new entry links down because it was checked, and the one above it links down exactly when it
  names the new hash.
-/
theorem linked_apply_iff (headers : RetainedHeaders H) (op : StoreOp H) (hLinked : headers.Linked) :
    (apply headers op).Linked ↔ headers.FitsBeneath op := by
  constructor
  · intro hAfter place entry next header hInserts hNext hHeader
    have hApart : next ≠ place := by
      intro hEq
      rw [hEq] at hNext
      omega
    apply hAfter place next entry.hash header hNext
    · rw [hashAt_apply, hInserts]
      exact if_pos rfl
    · rw [headerAt_apply_of_inserts hInserts, if_neg hApart]
      exact hHeader
  · intro hFits height next hash header hNext hHash hHeader
    have hApart : height ≠ next := by
      intro hEq
      rw [hEq] at hNext
      omega
    rw [hashAt_apply] at hHash
    cases hInserts : op.inserts headers with
    | some inserted =>
      rcases inserted with ⟨place, entry⟩
      rw [hInserts] at hHash
      dsimp only at hHash
      rw [headerAt_apply_of_inserts hInserts] at hHeader
      by_cases hPlace : next = place
      · subst hPlace
        rw [if_pos rfl] at hHeader
        rw [if_neg hApart] at hHash
        exact RetainedHeaders.prevHash_of_linksTo (linksTo_of_inserts hInserts hHeader) hNext hHash
      · rw [if_neg hPlace] at hHeader
        split at hHash
        · rename_i hHere
          subst hHere
          cases hHash
          exact hFits height entry next header hInserts hNext hHeader
        · exact hLinked height next hash header hNext hHash hHeader
    | none =>
      rw [hInserts] at hHash
      dsimp only at hHash
      have hOld := headerAt_of_apply hInserts hHeader
      split at hHash
      · cases hHash
      · exact hLinked height next hash header hNext hHash hOld

/-
  The store stays linked through a run exactly when every insertion fits beneath the header
  retained above it.
-/
theorem linked_throughout_iff (ops : List (StoreOp H)) :
    Runs.EachState apply RetainedHeaders.Linked RetainedHeaders.new ops ↔
    Runs.EachStep apply RetainedHeaders.FitsBeneath RetainedHeaders.new ops := by
  apply Runs.eachState_iff_eachStep linked_apply_iff
  intro height next hash header hNext hHash hHeader
  cases hHash

/- A hash put beneath a retained header is not checked. -/
theorem unlinked_after_insert_beneath :
    ¬ ∀ ops : List (StoreOp SymbolicHash), Runs.EachState apply RetainedHeaders.Linked
      RetainedHeaders.new ops := by
  intro hAlways
  have hLinked :=
    hAlways [.insertVerified 1 (regtestHeader 7 1 600 0), .insertHashOnly 0 (.bytes [])] _ []
      (List.append_nil _).symm
  have hNames :=
    hLinked 0 1 (.bytes []) (regtestHeader 7 1 600 0)
      (by decide) (by decide +kernel) (by decide +kernel)
  revert hNames
  decide +kernel

end StoreOp

--- The Reverse Index

namespace RetainedHeaders

variable {H : Type} [DecidableEq H]

section

variable (headers : RetainedHeaders H)

/- A hash is found at a height exactly where it is retained. -/
def IndexExact : Prop :=
  ∀ hash height, headers.heightOf hash = some height ↔ headers.hashAt height = some hash

theorem heightOf_insertEntry (height : UInt32) (entry : Retained H)
    (hash : H) :
    (headers.insertEntry height entry).heightOf hash =
      if hash = entry.hash then some height
      else if headers.hashAt height = some hash then none
      else headers.heightOf hash := by
  unfold heightOf insertEntry hashAt
  dsimp only
  by_cases hNew : hash = entry.hash
  · rw [if_pos hNew, hNew, AList.lookup_insert]
  rw [if_neg hNew, AList.lookup_insert_ne hNew]
  cases headers.byHeight.get? height with
  | none => rfl
  | some displaced =>
    simp only [Option.map_some, Option.some_inj]
    by_cases hOld : displaced.hash = hash
    · rw [if_pos hOld, hOld, AList.lookup_erase]
    · rw [if_neg hOld, AList.lookup_erase_ne (Ne.symm hOld)]

theorem hashAt_insertEntry (height other : UInt32)
    (entry : Retained H) :
    (headers.insertEntry height entry).hashAt other =
      if other = height then some entry.hash
      else headers.hashAt other := by
  unfold hashAt
  rw [get?_insertEntry]
  split
  · rfl
  · rfl

theorem hashAt_removeHeight (height other : UInt32) :
    (headers.removeHeight height).hashAt other =
      if other = height then none
      else headers.hashAt other := by
  unfold hashAt
  rw [get?_removeHeight]
  split
  · rfl
  · rfl

theorem heightOf_removeHeight (height : UInt32) (hash : H) :
    (headers.removeHeight height).heightOf hash =
      if headers.hashAt height = some hash then none
      else headers.heightOf hash := by
  unfold heightOf removeHeight hashAt
  cases headers.byHeight.get? height with
  | none => rfl
  | some entry =>
    simp only [Option.map_some, Option.some_inj]
    by_cases hHash : entry.hash = hash
    · rw [if_pos hHash, hHash, AList.lookup_erase]
    · rw [if_neg hHash, AList.lookup_erase_ne (Ne.symm hHash)]

end

variable {headers : RetainedHeaders H}

theorem IndexExact.insertEntry_iff (hExact : headers.IndexExact) (height : UInt32)
    (entry : Retained H) :
    (headers.insertEntry height entry).IndexExact ↔
    ∀ other, other ≠ height → headers.hashAt other ≠ some entry.hash := by
  constructor
  · intro hAfter other hOther hHash
    have hFound : (headers.insertEntry height entry).heightOf entry.hash = some other := by
      rw [hAfter, hashAt_insertEntry, if_neg hOther]
      exact hHash
    rw [heightOf_insertEntry, if_pos rfl] at hFound
    exact hOther (Option.some_inj.mp hFound).symm
  · intro hNew hash other
    rw [heightOf_insertEntry, hashAt_insertEntry]
    by_cases hHash : hash = entry.hash
    · subst hHash
      rw [if_pos rfl]
      by_cases hHere : other = height
      · simp [hHere]
      · rw [if_neg hHere, Option.some_inj]
        constructor
        · intro hEq
          exact absurd hEq.symm hHere
        · intro hThere
          exact absurd hThere (hNew other hHere)
    · rw [if_neg hHash]
      by_cases hHere : other = height
      · subst hHere
        rw [if_pos rfl, Option.some_inj]
        constructor
        · intro hFound
          split at hFound
          · cases hFound
          · rename_i hElse
            exact absurd ((hExact _ _).mp hFound) hElse
        · intro hEq
          exact absurd hEq.symm hHash
      · rw [if_neg hHere]
        split
        · rename_i hDisplaced
          have hFound := (hExact _ _).mpr hDisplaced
          constructor
          · intro hNone
            cases hNone
          · intro hThere
            rw [← hExact, hFound] at hThere
            exact absurd (Option.some_inj.mp hThere).symm hHere
        · exact hExact hash other

theorem IndexExact.removeHeight (hExact : headers.IndexExact) (height : UInt32) :
    (headers.removeHeight height).IndexExact := by
  intro hash other
  rw [heightOf_removeHeight, hashAt_removeHeight]
  by_cases hHere : other = height
  · subst hHere
    rw [if_pos rfl]
    split
    · simp
    · rename_i hElse
      rw [← hExact] at hElse
      constructor
      · intro hFound
        exact absurd hFound hElse
      · intro hNone
        cases hNone
  · rw [if_neg hHere]
    split
    · rename_i hGone
      have hFound := (hExact _ _).mpr hGone
      constructor
      · intro hNone
        cases hNone
      · intro hThere
        rw [← hExact, hFound] at hThere
        exact absurd (Option.some_inj.mp hThere).symm hHere
    · exact hExact hash other

theorem IndexExact.removeHeights (hExact : headers.IndexExact) (dropped : List UInt32) :
    (dropped.foldl RetainedHeaders.removeHeight headers).IndexExact := by
  induction dropped generalizing headers with
  | nil => exact hExact
  | cons height dropped ih =>
    rw [List.foldl_cons]
    exact ih (hExact.removeHeight height)

variable [Hash32 H]

/-
  What an operation inserts is not retained at another height already.
-/
def NewElsewhere (headers : RetainedHeaders H) (op : StoreOp H) : Prop :=
  ∀ place entry other,
    op.inserts headers = some (place, entry) → other ≠ place →
      headers.hashAt other ≠ some entry.hash

end RetainedHeaders

namespace StoreOp

variable {H : Type} [DecidableEq H] [Hash32 H]

/- An operation that inserts nothing keeps the index exact. -/
theorem indexExact_apply_of_none {headers : RetainedHeaders H} {op : StoreOp H}
    (hExact : headers.IndexExact) (hInserts : op.inserts headers = none) :
    (apply headers op).IndexExact := by
  cases op with
  | insertVerified height header =>
    rw [apply_insertVerified, if_neg]
    · exact hExact
    · intro hLinks
      unfold inserts at hInserts
      dsimp only at hInserts
      rw [if_pos hLinks] at hInserts
      cases hInserts
  | insertHashOnly height hash => cases hInserts
  | pruneBelow bound => exact hExact.removeHeights _
  | dropHeadersBelow bound =>
    intro hash height
    have hSame := hashAt_apply headers (dropHeadersBelow bound) height
    rw [hSame]
    exact hExact hash height
  | rewindTo bound => exact hExact.removeHeights _

theorem indexExact_apply_iff (headers : RetainedHeaders H) (op : StoreOp H)
    (hExact : headers.IndexExact) : (apply headers op).IndexExact ↔ headers.NewElsewhere op := by
  cases hInserts : op.inserts headers with
  | some inserted =>
    rcases inserted with ⟨place, entry⟩
    rw [apply_of_inserts hInserts, hExact.insertEntry_iff]
    constructor
    · intro hNew place' entry' other hInserts' hOther
      rw [hInserts] at hInserts'
      cases hInserts'
      exact hNew other hOther
    · intro hNew other hOther
      exact hNew place entry other hInserts hOther
  | none =>
    apply iff_of_true
    · exact indexExact_apply_of_none hExact hInserts
    · intro place entry other hInserts'
      rw [hInserts] at hInserts'
      cases hInserts'

/-
  The reverse index stays exact through a run exactly when no insertion repeats a hash that
  another height retains.
-/
theorem index_exact_throughout_iff (ops : List (StoreOp H)) :
    Runs.EachState apply RetainedHeaders.IndexExact RetainedHeaders.new ops ↔
    Runs.EachStep apply RetainedHeaders.NewElsewhere RetainedHeaders.new ops := by
  apply Runs.eachState_iff_eachStep indexExact_apply_iff
  intro hash height
  constructor
  · intro hFound
    cases hFound
  · intro hHash
    cases hHash

/-
  A hash at two heights has one reverse entry, and pruning one of the two removes it.
-/
theorem index_inexact_after_repeated_hash :
    ¬ ∀ ops : List (StoreOp SymbolicHash), Runs.EachState apply RetainedHeaders.IndexExact
      RetainedHeaders.new ops := by
  intro hAlways
  have hExact :=
    hAlways [.insertHashOnly 0 (.bytes [7]), .insertHashOnly 1 (.bytes [7]), .pruneBelow 1] _ []
      (List.append_nil _).symm
  have hRetained := (hExact (.bytes [7]) 1).mpr (by decide +kernel)
  revert hRetained
  decide +kernel

end StoreOp

--- Stable Generations

namespace StoreOp

variable {H : Type} [DecidableEq H] [Hash32 H]

section

variable (ops : List (StoreOp H))

def rewinds : Nat := ops.countP isRewind

/-
  Where the generation is the same at two instants, a height that both retain has one hash.
-/
def GenerationStable : Prop :=
  ∀ earlier later rest height hash hash',
    ops = earlier ++ later ++ rest →
      (run earlier).generation = (run (earlier ++ later)).generation →
      (run earlier).hashAt height = some hash →
      (run (earlier ++ later)).hashAt height = some hash' →
      hash = hash'

/-
  An insertion repeats the hash that its height had at any instant since the last rewind.
-/
def InsertsRepeat : Prop :=
  ∀ earlier later op rest place entry hash,
    ops = earlier ++ later ++ op :: rest → rewinds later = 0 →
      op.inserts (run (earlier ++ later)) = some (place, entry) →
      (run earlier).hashAt place = some hash →
      hash = entry.hash

end

theorem run_append (earlier later : List (StoreOp H)) :
    run (earlier ++ later) = later.foldl apply (run earlier) := List.foldl_append

theorem run_append_singleton (ops : List (StoreOp H)) (op : StoreOp H) :
    run (ops ++ [op]) = apply (run ops) op := run_append ops [op]

/- By induction over the operations. -/
theorem generation_foldl_apply (headers : RetainedHeaders H) (ops : List (StoreOp H)) :
    (ops.foldl apply headers).generation.value =
      headers.generation.value + UInt64.ofNat (rewinds ops) := by
  unfold rewinds
  induction ops generalizing headers with
  | nil => simp
  | cons op ops ih =>
    rw [List.foldl_cons, ih, generation_apply, List.countP_cons]
    split
    · unfold ChainGeneration.next
      dsimp only
      rw [UInt64.ofNat_add]
      grind
    · rw [Nat.add_zero]

variable {earlier later : List (StoreOp H)}

theorem generation_append (hRewinds : rewinds later = 0) :
    (run (earlier ++ later)).generation = (run earlier).generation := by
  apply ChainGeneration.ext
  rw [run_append, generation_foldl_apply, hRewinds]
  exact UInt64.add_zero _

theorem isRewind_of_inserts {headers : RetainedHeaders H} {op : StoreOp H}
    {inserted : UInt32 × Retained H} (hInserts : op.inserts headers = some inserted) :
    op.isRewind = false := by
  cases op with
  | rewindTo bound => cases hInserts
  | insertVerified height header => rfl
  | insertHashOnly height hash => rfl
  | pruneBelow bound => rfl
  | dropHeadersBelow bound => rfl

/- Fewer than 2 ^ 64 rewinds do not bring a generation back. -/
theorem rewinds_eq_zero (hSame : (run earlier).generation = (run (earlier ++ later)).generation)
    (hRewinds : rewinds later < 2 ^ 64) : rewinds later = 0 := by
  have hValue := congrArg ChainGeneration.value hSame
  rw [run_append, generation_foldl_apply] at hValue
  have hZero : UInt64.ofNat (rewinds later) = 0 := by grind
  have hNat := congrArg UInt64.toNat hZero
  rw [UInt64.toNat_ofNat', Nat.mod_eq_of_lt hRewinds] at hNat
  exact hNat

/- Without a rewind between them, instants agree on hashes. -/
theorem hash_eq_of_insertsRepeat {ops : List (StoreOp H)} (hRepeat : InsertsRepeat ops)
    {rest : List (StoreOp H)} {height : UInt32} {hash hash' : H}
    (hOps : ops = earlier ++ later ++ rest) (hRewinds : rewinds later = 0)
    (hHash : (run earlier).hashAt height = some hash)
    (hHash' : (run (earlier ++ later)).hashAt height = some hash') : hash = hash' := by
  induction later using List.reverseRecOn generalizing rest hash' with
  | nil =>
    rw [List.append_nil, hHash] at hHash'
    exact Option.some_inj.mp hHash'
  | append_singleton later op ih =>
    unfold rewinds at hRewinds
    rw [List.countP_append, Nat.add_eq_zero_iff] at hRewinds
    rw [List.append_assoc, List.append_assoc, List.singleton_append, ← List.append_assoc] at hOps
    rw [← List.append_assoc, run_append_singleton, hashAt_apply] at hHash'
    cases hInserts : op.inserts (run (earlier ++ later)) with
    | some inserted =>
      rcases inserted with ⟨place, entry⟩
      rw [hInserts] at hHash'
      dsimp only at hHash'
      split at hHash'
      · rename_i hHere
        subst hHere
        cases hHash'
        exact hRepeat earlier later op rest height entry hash hOps hRewinds.1 hInserts hHash
      · exact ih hOps hRewinds.1 hHash'
    | none =>
      rw [hInserts] at hHash'
      dsimp only at hHash'
      split at hHash'
      · cases hHash'
      · exact ih hOps hRewinds.1 hHash'

end StoreOp

end OptnWallet
