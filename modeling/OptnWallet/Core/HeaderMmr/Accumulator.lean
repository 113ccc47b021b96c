import OptnWallet.Core.HeaderPow
import OptnWallet.Library.Words

/-
  The Merkle Mountain Range accumulator of simplified header verification.

  A leaf count is an unsigned 64-bit word, kept as a natural number.  The `expect`s of `extend`
  are modelled by an option: `none` is the abort.

  Main declarations:
    * `MmrAccumulator.extend` and `MmrAccumulator.root`
    * `MmrAccumulator.proofForNextLeaf`
    * `MmrAccumulator.verifyProofToPeak`
    * `MmrAccumulator.verifyProofToRoot`
    * `MmrAccumulator.bootstrapFromLastLeafProof`
-/

--- The Accumulator

namespace OptnWallet

open Word64

inductive MmrError where
  | peakCountMismatch (expected actual : Nat)
  | invalidSerializedLength (expected actual : Nat)
  | serializationTooShort (length : Nat)
deriving DecidableEq

/- Peaks are ordered from the tallest to the shortest. -/
structure MmrAccumulator (H : Type) where
  leafCount : Nat
  peaks : List H
deriving DecidableEq

namespace MmrAccumulator

variable {H : Type}

def new : MmrAccumulator H := { leafCount := 0, peaks := [] }

def fromParts (leafCount : Nat) (peaks : List H) : Except MmrError (MmrAccumulator H) :=
  let expected := countOnes leafCount
  if peaks.length ≠ expected then .error (.peakCountMismatch expected peaks.length)
  else .ok { leafCount, peaks }

variable [Hash32 H]

/- Pop and merge `mergeCount` peaks; a missing one aborts. -/
def mergePeaks : Nat → List H → H → Option (List H × H)
  | 0, peaks, current => some (peaks, current)
  | mergeCount + 1, peaks, current =>
    match peaks.getLast? with
    | none => none
    | some left => mergePeaks mergeCount peaks.dropLast (sha256dPair left current)

/- `u64::checked_add`. -/
def checkedAdd (a b : Nat) : Option Nat :=
  if a + b < 2 ^ 64 then some (a + b) else none

/- Append a validated leaf hash. -/
def extend (acc : MmrAccumulator H) (leaf : H) : Option (MmrAccumulator H) := do
  let (peaks, current) ← mergePeaks (trailingOnes acc.leafCount) acc.peaks leaf
  let leafCount ← checkedAdd acc.leafCount 1
  pure { leafCount, peaks := peaks ++ [current] }

--- Bagging The Peaks

/- `steps` rounds of pairing a node with itself. -/
def selfPaired : Nat → H → H
  | 0, current => current
  | steps + 1, current => selfPaired steps (sha256dPair current current)

/- The nodes those rounds start from, in order. -/
def selfPairedPath : Nat → H → List H
  | 0, _ => []
  | steps + 1, current => current :: selfPairedPath steps (sha256dPair current current)

/-
  Bag the peaks to the left of `current`, the nearest first. `remaining` still holds the bit of
  the peak just left behind.
-/
def bagLoop : List H → Nat → Nat → H → H
  | [], _, _, current => current
  | left :: lefts, remaining, height, current =>
    let remaining := clearLowest remaining
    let nextHeight := trailingZeros remaining
    let padded := selfPaired (nextHeight - height) current
    bagLoop lefts remaining (max height nextHeight + 1) (sha256dPair left padded)

/-
  The Bitcoin-style Merkle root.  Every accumulator holds a peak for each set bit of its leaf
  count, so the final fallback, the `expect` of the source, is never reached.
-/
def root (acc : MmrAccumulator H) : H :=
  if acc.leafCount = 0 then Hash32.zero
  else
    match acc.peaks.reverse with
    | [] => Hash32.zero
    | [peak] => peak
    | shortest :: lefts => bagLoop lefts acc.leafCount (trailingZeros acc.leafCount) shortest

/- Climb past the peaks to the left, recording siblings. -/
def proofLoop : List H → Nat → Nat → H → List H
  | [], _, _, _ => []
  | left :: lefts, remaining, height, current =>
    let leftHeight := trailingZeros remaining
    let steps := leftHeight - height
    let padded := selfPaired steps current
    selfPairedPath steps current ++
      left ::
        proofLoop lefts (clearLowest remaining) (max height leftHeight + 1)
          (sha256dPair left padded)

/-
  Proof to the new root for a leaf about to be appended.
-/
def proofForNextLeaf (acc : MmrAccumulator H) (leaf : H) : List H :=
  proofLoop acc.peaks.reverse acc.leafCount 0 leaf

--- Verifying Proofs

/- Hash a node with its sibling on the side its index says. -/
def stepUp (idx : Nat) (sibling current : H) : H :=
  if idx &&& 1 = 1 then sha256dPair sibling current
  else sha256dPair current sibling

/- The climb of `verify_proof_to_peak`. -/
def climbToPeak : List H → Nat → H → H
  | [], _, current => current
  | sibling :: siblings, idx, current =>
    climbToPeak siblings (idx >>> 1) (stepUp idx sibling current)

/-
  The mountain holding a leaf: its height and the index of its peak, scanning from the tallest.
-/
def findMountain (leafIndex : Nat) (remaining mountainStart mountainHeight peakIndex : Nat) :
    Nat × Nat :=
  if 0 < remaining then
    let mountainHeight := bitWidth remaining - 1
    let mountainSize := 2 ^ mountainHeight
    if leafIndex < mountainStart + mountainSize then (mountainHeight, peakIndex)
    else findMountain leafIndex (remaining - mountainSize) (mountainStart + mountainSize)
        mountainHeight (peakIndex + 1)
  else (mountainHeight, peakIndex)
  termination_by remaining
  decreasing_by
    exact Nat.sub_lt ‹_› (Nat.two_pow_pos _)

variable [DecidableEq H]

/- Verify a proof to the peak containing `leafIndex`. -/
def verifyProofToPeak (acc : MmrAccumulator H) (leafIndex : Nat) (leaf : H) (siblings : List H) :
    Bool :=
  if acc.leafCount ≤ leafIndex then false
  else
    let (mountainHeight, peakIndex) := findMountain leafIndex acc.leafCount 0 0 0
    if siblings.length ≠ mountainHeight then false
    else
      match acc.peaks[peakIndex]? with
      | none => false
      | some peak => climbToPeak siblings leafIndex leaf = peak

/-
  The climb of `verify_proof_to_root`: a left sibling equal to the current node is refused.
-/
def climbToRoot : List H → Nat → H → Option H
  | [], _, current => some current
  | sibling :: siblings, idx, current =>
    if idx &&& 1 = 1 ∧ sibling = current then none
    else climbToRoot siblings (idx >>> 1) (stepUp idx sibling current)

/- Verify a full proof against the bagged root. -/
def verifyProofToRoot (acc : MmrAccumulator H) (leafIndex : Nat) (leaf : H) (siblings : List H) :
    Bool :=
  if acc.leafCount ≤ leafIndex then false
  else if acc.leafCount = 1 then siblings.isEmpty && acc.peaks.head? = some leaf
  else if siblings.length ≠ bitWidth (acc.leafCount - 1) then false
  else climbToRoot siblings leafIndex leaf = some acc.root

--- Bootstrapping From A Last-Leaf Proof

/-
  Climb `steps` levels; running out of siblings or meeting an equal left sibling fails.  Returns
  the unread siblings, the index and the computed node.
-/
def bootstrapClimb : Nat → List H → Nat → H → Option (List H × Nat × H)
  | 0, siblings, idx, computed => some (siblings, idx, computed)
  | _ + 1, [], _, _ => none
  | steps + 1, sibling :: siblings, idx, computed =>
    if idx &&& 1 = 1 ∧ sibling = computed then none
    else bootstrapClimb steps siblings (idx >>> 1) (stepUp idx sibling computed)

/-
  One round for each set bit of `remaining`, filling the peaks from the shortest to the tallest.
  The second result is the number of slots left unfilled.
-/
def bootstrapLoop (lastLeaf : H) (peakCount : Nat) :
    Nat → Nat → List H → Nat → H → Nat → List (Option H) → Option (List H × Nat × List (Option H))
  | 0, remaining, siblings, _, _, _, peaks =>
    -- `peak_idx.checked_sub(1)?` fails in a further round.
    if remaining = 0 then some (siblings, 0, peaks)
    else none
  | peakIdx + 1, remaining, siblings, currentHeight,
      computed, idx, peaks =>
      if remaining = 0 then some (siblings, peakIdx + 1, peaks)
      else do
        let peakHeight := trailingZeros remaining
        let (siblings, idx, computed) ←
          bootstrapClimb (peakHeight - currentHeight) siblings idx computed
        let currentHeight := max currentHeight peakHeight
        if peakHeight = 0 ∧ peakIdx = peakCount - 1 then
          bootstrapLoop lastLeaf peakCount peakIdx (clearLowest remaining) siblings currentHeight
            computed idx (peaks.set peakIdx (some lastLeaf))
        else
          match siblings with
          | sibling :: siblings =>
            if idx &&& 1 = 1 ∧ sibling = computed then none
            else
              bootstrapLoop lastLeaf peakCount peakIdx (clearLowest remaining) siblings
                (currentHeight + 1) (stepUp idx sibling computed) (idx >>> 1)
                (peaks.set peakIdx (some sibling))
          | [] =>
            bootstrapLoop lastLeaf peakCount peakIdx (clearLowest remaining) [] currentHeight
              computed idx (peaks.set peakIdx (some computed))

/-
  Bootstrap from the proof-to-root of the last leaf; `none` for a malformed or ambiguous proof.
-/
def bootstrapFromLastLeafProof (leafCount : Nat) (lastLeaf : H) (siblings : List H) :
    Option (MmrAccumulator H) :=
  if leafCount = 0 then
    if siblings.isEmpty then some new else none
  else if leafCount = 1 then
    if siblings.isEmpty then (fromParts 1 [lastLeaf]).toOption
    else none
  else if siblings.length ≠ bitWidth (leafCount - 1) then none
  else do
    let peakCount := countOnes leafCount
    let (unread, peakIdx, peaks) ←
      bootstrapLoop lastLeaf peakCount peakCount leafCount siblings 0 lastLeaf (leafCount - 1)
        (List.replicate peakCount none)
    if unread ≠ [] ∨ peakIdx ≠ 0 then none
    else
      let peaks ← peaks.mapM id
      let accumulator ← (fromParts leafCount peaks).toOption
      if accumulator.verifyProofToRoot (leafCount - 1)
          lastLeaf siblings then
        some accumulator
      else none

end MmrAccumulator

end OptnWallet
