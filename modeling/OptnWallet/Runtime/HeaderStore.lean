import Mathlib.Data.List.AList
import OptnWallet.Core.HeaderPow
import OptnWallet.Library.BTreeMap
import OptnWallet.Library.Runs
import OptnWallet.Library.Words

/-
  The bounded window of accepted headers: hashes by height, heights by hash, and the generation
  that a reorganisation bumps.

  Main declarations:
    * `RetainedHeaders.insertVerified` and `RetainedHeaders.insertHashOnly`
    * `RetainedHeaders.pruneBelow`, `RetainedHeaders.dropHeadersBelow` and
      `RetainedHeaders.rewindTo`
    * `StoreOp.apply`
    * `StoreOp.get?_apply`
-/

--- Generations

namespace OptnWallet

/- Which accepted chain a projection was built against. -/
@[ext]
structure ChainGeneration where
  value : UInt64
deriving DecidableEq

def ChainGeneration.next (generation : ChainGeneration) : ChainGeneration :=
  { value := generation.value + 1 }

inductive HeaderStoreError where
  | notRetained (requested : UInt32) (retained : Option (UInt32 × UInt32))
  | emptyRange (start stop : UInt32)
  | discontiguous (missing : UInt32)
  | linkage (height : UInt32)
deriving DecidableEq

/-
  One retained block.  A pruned tail keeps the hash after its header is dropped.
-/
structure Retained (H : Type) where
  hash : H
  header : Option BlockHeaderBytes
deriving DecidableEq

--- The Store

structure RetainedHeaders (H : Type) where
  byHeight : BTreeMap UInt32 (Retained H)
  byHash : AList (fun _ : H => UInt32)
  generation : ChainGeneration

namespace RetainedHeaders

variable {H : Type}

def new : RetainedHeaders H :=
  { byHeight := BTreeMap.new, byHash := ∅, generation := { value := 0 } }

section

variable (headers : RetainedHeaders H) (height : UInt32)

def hashAt : Option H :=
  (headers.byHeight.get? height).map Retained.hash

def headerAt : Option BlockHeaderBytes :=
  (headers.byHeight.get? height).bind Retained.header

/- The cheap prune: hashes stay, headers go. -/
def dropHeadersBelow : RetainedHeaders H :=
  { headers with
    byHeight :=
      headers.byHeight.mapValues
        (fun other entry =>
          if other < height then { entry with header := none }
          else entry) }

end

variable [DecidableEq H]

section

variable (headers : RetainedHeaders H)

def heightOf (hash : H) : Option UInt32 := headers.byHash.lookup hash

section

variable (height : UInt32)

/-
  Put an entry at a height.  The reverse entry of the one it displaces goes first.
-/
def insertEntry (entry : Retained H) : RetainedHeaders H :=
  let byHash :=
    match headers.byHeight.get? height with
    | some displaced => headers.byHash.erase displaced.hash
    | none => headers.byHash
  { headers with
    byHeight := headers.byHeight.insert height entry
    byHash := byHash.insert entry.hash height }

def insertHashOnly (hash : H) : RetainedHeaders H :=
  headers.insertEntry height { hash, header := none }

/- Remove a height that is retained, and its reverse entry. -/
def removeHeight : RetainedHeaders H :=
  match headers.byHeight.get? height with
  | some entry =>
    { headers with
      byHeight := headers.byHeight.remove height
      byHash := headers.byHash.erase entry.hash }
  | none => headers

/- Pruning does not touch the generation. -/
def pruneBelow : RetainedHeaders H :=
  let dropped := headers.byHeight.keys.filter (fun other => decide (other < height))
  dropped.foldl removeHeight headers

/- Everything from `height` on goes, in a new generation. -/
def rewindTo : RetainedHeaders H :=
  let dropped := headers.byHeight.keys.filter (fun other => decide (height ≤ other))
  { dropped.foldl removeHeight headers with generation := headers.generation.next }

end

end

variable [Hash32 H]

/- The hash that a header gives for its predecessor. -/
def prevHash (header : BlockHeaderBytes) : H := Hash32.ofBytes (header.bytes.extract 4 36)

/-
  A header links to the block retained beneath it.  Where nothing is retained there, there is
  nothing to check.
-/
def linksTo (headers : RetainedHeaders H) (height : UInt32) (header : BlockHeaderBytes) : Bool :=
  match (Word32.checkedSub height 1).bind headers.byHeight.get?
  with
  | some previous => decide (prevHash header = previous.hash)
  | none => true

/- The entry of a verified header. -/
def verifiedEntry (header : BlockHeaderBytes) : Retained H :=
  { hash := sha256d header.bytes.toList, header := some header }

def insertVerified (headers : RetainedHeaders H) (height : UInt32) (header : BlockHeaderBytes) :
    Except HeaderStoreError (RetainedHeaders H) :=
  if headers.linksTo height header then .ok (headers.insertEntry height (verifiedEntry header))
  else .error (.linkage height)

end RetainedHeaders

--- Projections

/- A read of the store, stamped with the generation it saw. -/
structure HeaderProjection (H : Type) where
  generation : ChainGeneration
  blocks : List (UInt32 × H)

def HeaderProjection.isStale {H : Type} (projection : HeaderProjection H)
    (store : RetainedHeaders H) : Bool := decide (projection.generation ≠ store.generation)

--- Operations

/- What a caller can do to the store. -/
inductive StoreOp (H : Type) where
  | insertVerified (height : UInt32) (header : BlockHeaderBytes)
  | insertHashOnly (height : UInt32) (hash : H)
  | pruneBelow (height : UInt32)
  | dropHeadersBelow (height : UInt32)
  | rewindTo (height : UInt32)
deriving DecidableEq

namespace StoreOp

variable {H : Type} [DecidableEq H] [Hash32 H]

/- A refused insertion leaves the store as it was. -/
def apply (headers : RetainedHeaders H) : StoreOp H → RetainedHeaders H
  | insertVerified height header =>
    match headers.insertVerified height header with
    | .ok inserted => inserted
    | .error _ => headers
  | insertHashOnly height hash => headers.insertHashOnly height hash
  | pruneBelow height => headers.pruneBelow height
  | dropHeadersBelow height => headers.dropHeadersBelow height
  | rewindTo height => headers.rewindTo height

/- The store after operations on a new one. -/
def run (ops : List (StoreOp H)) : RetainedHeaders H := ops.foldl apply RetainedHeaders.new

/- The entry that an operation puts into the store. -/
def inserts (headers : RetainedHeaders H) : StoreOp H → Option (UInt32 × Retained H)
  | insertVerified height header =>
    if headers.linksTo height header then some (height, RetainedHeaders.verifiedEntry header)
    else none
  | insertHashOnly height hash => some (height, { hash, header := none })
  | _ => none

/- The heights that an operation removes. -/
def removes (height : UInt32) : StoreOp H → Bool
  | pruneBelow bound => decide (height < bound)
  | rewindTo bound => decide (bound ≤ height)
  | _ => false

/- What an operation leaves of an entry that stays. -/
def strips (height : UInt32) (entry : Retained H) : StoreOp H → Retained H
  | dropHeadersBelow bound =>
    if height < bound then { entry with header := none }
    else entry
  | _ => entry

def isRewind : StoreOp H → Bool
  | rewindTo _ => true
  | _ => false

end StoreOp

--- What An Operation Does

namespace RetainedHeaders

variable {H : Type} [DecidableEq H] (headers : RetainedHeaders H)

theorem get?_insertEntry (height other : UInt32)
    (entry : Retained H) :
    (headers.insertEntry height entry).byHeight.get? other =
      if other = height then some entry
      else headers.byHeight.get? other := BTreeMap.get?_insert _ _ _ _

theorem get?_removeHeight (height other : UInt32) :
    (headers.removeHeight height).byHeight.get? other =
      if other = height then none
      else headers.byHeight.get? other := by
  unfold removeHeight
  split
  · exact BTreeMap.get?_remove _ _ _
  · rename_i hNone
    split
    · rename_i hSame
      rw [hSame, hNone]
    · rfl

/- By induction over the heights that go. -/
theorem get?_foldl_removeHeight {dropped : List UInt32} {headers : RetainedHeaders H}
    {other : UInt32} :
    (dropped.foldl removeHeight headers).byHeight.get? other =
      if other ∈ dropped then none
      else headers.byHeight.get? other := by
  induction dropped generalizing headers with
  | nil => simp
  | cons height dropped ih =>
    rw [List.foldl_cons, ih, get?_removeHeight]
    by_cases hSame : other = height
    · simp [hSame]
    · simp [hSame]

theorem generation_removeHeight (height : UInt32) :
    (headers.removeHeight height).generation = headers.generation := by
  unfold removeHeight
  split
  · rfl
  · rfl

theorem generation_foldl_removeHeight {dropped : List UInt32} {headers : RetainedHeaders H} :
    (dropped.foldl removeHeight headers).generation = headers.generation := by
  induction dropped generalizing headers with
  | nil => rfl
  | cons height dropped ih => rw [List.foldl_cons, ih, generation_removeHeight]

/- The retained heights with a property are those it removes. -/
theorem get?_foldl_removeHeight_filter (goes : UInt32 → Bool)
    (other : UInt32) :
    ((headers.byHeight.keys.filter goes).foldl removeHeight headers).byHeight.get? other =
      if goes other then none
      else headers.byHeight.get? other := by
  rw [get?_foldl_removeHeight]
  by_cases hGoes : goes other = true
  · rw [if_pos hGoes]
    split
    · rfl
    · rename_i hOut
      rw [Option.eq_none_iff_forall_ne_some]
      intro entry hEntry
      apply hOut
      rw [List.mem_filter, BTreeMap.mem_keys_iff]
      exact ⟨⟨entry, hEntry⟩, hGoes⟩
  · rw [if_neg hGoes, if_neg]
    intro hMem
    exact hGoes (List.mem_filter.mp hMem).2

theorem get?_pruneBelow (bound height : UInt32) :
    (headers.pruneBelow bound).byHeight.get? height =
      if decide (height < bound) then none
      else headers.byHeight.get? height :=
  get?_foldl_removeHeight_filter headers (fun other => decide (other < bound)) height

theorem get?_rewindTo (bound height : UInt32) :
    (headers.rewindTo bound).byHeight.get? height =
      if decide (bound ≤ height) then none
      else headers.byHeight.get? height :=
  get?_foldl_removeHeight_filter headers (fun other => decide (bound ≤ other)) height

end RetainedHeaders

namespace StoreOp

variable {H : Type} [DecidableEq H] [Hash32 H]

theorem apply_insertVerified (headers : RetainedHeaders H) (height : UInt32)
    (header : BlockHeaderBytes) :
    apply headers (insertVerified height header) =
      if headers.linksTo height header then
        headers.insertEntry height (RetainedHeaders.verifiedEntry header)
      else headers := by
  unfold apply RetainedHeaders.insertVerified
  by_cases hLinks : headers.linksTo height header = true
  · simp [hLinks]
  · simp [hLinks]

theorem apply_of_inserts {headers : RetainedHeaders H} {op : StoreOp H} {place : UInt32}
    {entry : Retained H} (hInserts : op.inserts headers = some (place, entry)) :
    apply headers op = headers.insertEntry place entry := by
  cases op with
  | insertVerified height header =>
    unfold inserts at hInserts
    dsimp only at hInserts
    rw [apply_insertVerified]
    split at hInserts
    · rename_i hLinks
      cases hInserts
      rw [if_pos hLinks]
    · cases hInserts
  | insertHashOnly height hash =>
    cases hInserts
    rfl
  | pruneBelow bound => cases hInserts
  | dropHeadersBelow bound => cases hInserts
  | rewindTo bound => cases hInserts

/- The entry at a height after an operation. -/
theorem get?_apply (headers : RetainedHeaders H) (op : StoreOp H) (height : UInt32) :
    (apply headers op).byHeight.get? height =
      match op.inserts headers with
      | some (place, entry) =>
        if height = place then some entry
        else headers.byHeight.get? height
      | none =>
        if op.removes height then none
        else (headers.byHeight.get? height).map (fun entry => op.strips height entry) := by
  cases op with
  | insertVerified place header =>
    rw [apply_insertVerified]
    unfold inserts
    dsimp only
    by_cases hLinks : headers.linksTo place header = true
    · rw [if_pos hLinks, if_pos hLinks]
      exact RetainedHeaders.get?_insertEntry _ _ _ _
    · rw [if_neg hLinks, if_neg hLinks]
      simp [removes, strips]
  | insertHashOnly place hash => exact RetainedHeaders.get?_insertEntry _ _ _ _
  | pruneBelow bound =>
    unfold apply inserts removes strips
    rw [RetainedHeaders.get?_pruneBelow, Option.map_id']
  | dropHeadersBelow bound => exact BTreeMap.get?_mapValues _ _ _
  | rewindTo bound =>
    unfold apply inserts removes strips
    rw [RetainedHeaders.get?_rewindTo, Option.map_id']

/- Only a rewind moves the generation. -/
theorem generation_apply (headers : RetainedHeaders H) (op : StoreOp H) :
    (apply headers op).generation =
      if op.isRewind then headers.generation.next
      else headers.generation := by
  cases op with
  | insertVerified place header =>
    rw [apply_insertVerified]
    split
    · rfl
    · rfl
  | insertHashOnly place hash => rfl
  | pruneBelow bound => exact RetainedHeaders.generation_foldl_removeHeight
  | dropHeadersBelow bound => rfl
  | rewindTo bound => rfl

end StoreOp

end OptnWallet
