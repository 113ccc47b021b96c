import OptnWallet.Core.Cashaddr
import OptnWallet.Library.Overflow
import OptnWallet.Library.PartialTree
import OptnWallet.Library.StagedUpdate

/-
  Blocks in which a peer proves some of the transactions: a partial Merkle tree, walked along a
  declared total in words of 32 bits.

  Main declarations:
    * `Bip37.treeHeight` and `Bip37.traverse`
    * `Bip37.parseMerkleblock`
    * `Bip37.traverse_follows`
    * `Bip37.parse_safe_iff`
-/

namespace OptnWallet.Bip37

open ByteFormat
open Overflow (Mode)
open StagedUpdate

--- Payloads

structure MerkleBlock where
  totalTransactions : UInt32
  header : Vector UInt8 80
  valid : Bool
  matchedTxids : List (Vector UInt8 32)

/- The place behind the bytes is a word of 64 bits. -/
def checkedAdd {α : Type} (count : Nat) (reader : Reader String α) : Reader String α :=
  fun bytes position =>
    if 2 ^ 64 ≤ position + count then .error "length overflow"
    else reader bytes position

def take (count : Nat) : Reader String (List UInt8) :=
  checkedAdd count (Reader.take "truncated message" count)

def takeArray (count : Nat) : Reader String (Vector UInt8 count) :=
  checkedAdd count (Reader.takeArray "truncated message" count)

def readU32 : Reader String UInt32 := do
  let bytes ← take 4
  return UInt32.ofNat (natOfBytesLE bytes)

def readU64 : Reader String UInt64 := do
  let bytes ← take 8
  return UInt64.ofNat (natOfBytesLE bytes)

def readVarint : Reader String UInt64 := do
  let bytes ← takeArray 1
  let first := bytes[0]
  if first = 0xff then readU64
  else if first = 0xfe then do
    let value ← readU32
    return value.toUInt64
  else if first = 0xfd then do
    let bytes ← take 2
    return UInt64.ofNat (natOfBytesLE bytes)
  else return first.toUInt64

/- What a payload says. -/
structure Fields where
  header : Vector UInt8 80
  total : UInt32
  hashes : List (Vector UInt8 32)
  flags : List UInt8

def refuseEmpty (total : UInt32) : Reader String Unit :=
  Reader.lift
    (if total = 0 then .error "merkleblock with zero transactions"
    else .ok ())

def readFields : Reader String Fields := do
  let header ← Reader.takeArray "merkleblock shorter than a header" 80
  let total ← readU32
  refuseEmpty total
  let hashCount ← readVarint
  let hashes ← Reader.many (takeArray 32) hashCount.toNat
  let flagLen ← readVarint
  let flags ← take flagLen.toNat
  let fields : Fields := { header, total, hashes, flags }
  return fields

--- Words

/- A result that is out of range panics or wraps. -/
def keep32 (mode : Mode) (exact : Nat) : Except (Fault String) UInt32 :=
  match mode with
  | .panics =>
    if exact < 2 ^ 32 then .ok (UInt32.ofNat exact)
    else .error .panic
  | .wraps => .ok (UInt32.ofNat exact)

/- What a shift by as many bits as a word has does. -/
def keepShift (mode : Mode) (bits shifted : UInt32) : Except (Fault String) UInt32 :=
  match mode with
  | .panics => if bits < 32 then .ok shifted else .error .panic
  | .wraps => .ok shifted

/- `1u32 << bits` -/
def shiftOne (mode : Mode) (bits : UInt32) : Except (Fault String) UInt32 :=
  keepShift mode bits (1 <<< bits)

def lessOne (mode : Mode) (word : UInt32) : Except (Fault String) UInt32 :=
  match mode with
  | .panics => if word = 0 then .error .panic else .ok (word - 1)
  | .wraps => .ok (word - 1)

/- The loop that looks for the height, for as long as there is fuel. -/
def heightLoop (mode : Mode) (total : UInt32) : Nat → UInt32 → Option (Except (Fault String) UInt32)
  | 0, _ => none
  | fuel + 1, h =>
    match shiftOne mode h with
    | .error fault => some (.error fault)
    | .ok bit =>
      if bit < total then
        match keep32 mode (h.toNat + 1) with
        | .error fault => some (.error fault)
        | .ok next => heightLoop mode total fuel next
      else some (.ok h)

def treeHeight (mode : Mode) (total : UInt32) (fuel : Nat) :
    Option (Except (Fault String) UInt32) := heightLoop mode total fuel 0

--- Walks

structure PartialMerkle where
  total : UInt32
  hashes : List (Vector UInt8 32)
  flags : List UInt8
  hashIdx : Nat
  bitIdx : Nat
  matched : List (Vector UInt8 32)
  bad : Bool

namespace PartialMerkle

def width (mode : Mode) (pm : PartialMerkle) (height : UInt32) : Except (Fault String) UInt32 := do
  let bit ← shiftOne mode height
  let sum ← keep32 mode (pm.total.toNat + bit.toNat)
  let less ← lessOne mode sum
  keepShift mode height (less >>> height)

def bitOf (byte : UInt8) (off : Nat) : Bool := (byte >>> UInt8.ofNat off) &&& 1 = 1

def nextBit (pm : PartialMerkle) : Bool × PartialMerkle :=
  match pm.flags[pm.bitIdx / 8]? with
  | some byte => (bitOf byte (pm.bitIdx % 8), { pm with bitIdx := pm.bitIdx + 1 })
  | none => (false, { pm with bitIdx := pm.bitIdx + 1, bad := true })

def zeroHash : Vector UInt8 32 := Vector.replicate 32 0

def nextHash (pm : PartialMerkle) : Vector UInt8 32 × PartialMerkle :=
  match pm.hashes[pm.hashIdx]? with
  | some h => (h, { pm with hashIdx := pm.hashIdx + 1 })
  | none => (zeroHash, { pm with bad := true })

end PartialMerkle

/- What a call returns and leaves, with the pairs that were hashed below it, and the calls it took
   and their depth. -/
structure Walk where
  hash : Vector UInt8 32
  state : PartialMerkle
  hashed : List (Vector UInt8 32 × Vector UInt8 32)
  calls : Nat
  depth : Nat

variable (doubleSha256 : List UInt8 → Vector UInt8 32)

def cat (left right : Vector UInt8 32) : Vector UInt8 32 :=
  doubleSha256 (left.toList ++ right.toList)

/- A node that is not opened. -/
def leafWalk (pm : PartialMerkle) (found : Bool) : Walk :=
  let (h, pm) := pm.nextHash
  { hash := h
    state :=
      if found then { pm with matched := pm.matched ++ [h] }
      else pm
    hashed := []
    calls := 1
    depth := 1 }

/- The right edge duplicates its last node. -/
def edgeWalk (left : Walk) : Walk :=
  { left with
    hash := cat doubleSha256 left.hash left.hash
    hashed := left.hashed ++ [(left.hash, left.hash)]
    calls := 1 + left.calls
    depth := left.depth + 1 }

def innerWalk (left right : Walk) : Walk :=
  { hash := cat doubleSha256 left.hash right.hash
    state :=
      if right.hash = left.hash then { right.state with bad := true }
      else right.state
    hashed := left.hashed ++ right.hashed ++ [(left.hash, right.hash)]
    calls := 1 + left.calls + right.calls
    depth := max left.depth right.depth + 1 }

def traverse (mode : Mode) : Nat → UInt32 → PartialMerkle → Except (Fault String) Walk
  | 0, _, pm =>
    let (flag, pm) := pm.nextBit
    .ok (leafWalk pm flag)
  | height + 1, pos, pm =>
    let (flag, pm) := pm.nextBit
    if flag = false then .ok (leafWalk pm false)
    else do
      let leftPos ← keep32 mode (pos.toNat * 2)
      let left ← traverse mode height leftPos pm
      let rightPos ← keep32 mode (leftPos.toNat + 1)
      let width ← left.state.width mode (UInt32.ofNat height)
      if rightPos < width then do
        let right ← traverse mode height rightPos left.state
        .ok (innerWalk doubleSha256 left right)
      else .ok (edgeWalk doubleSha256 left)

--- Parsing

def Fields.start (fields : Fields) : PartialMerkle :=
  { total := fields.total
    hashes := fields.hashes
    flags := fields.flags
    hashIdx := 0
    bitIdx := 0
    matched := []
    bad := false }

/- The walk from the root, for as long as there is fuel for the loop. -/
def Fields.walk (mode : Mode) (fields : Fields) (fuel : Nat) :
    Option (Except (Fault String) Walk) :=
  match treeHeight mode fields.total fuel with
  | none => none
  | some (.error fault) => some (.error fault)
  | some (.ok height) => some (traverse doubleSha256 mode height.toNat 0 fields.start)

/- The bytes of the root in a header. -/
def merkleRootOf (header : Vector UInt8 80) : List UInt8 := (header.toList.drop 36).take 32

/- Both streams are used up, and the root is in the header. -/
def Fields.blockOf (fields : Fields) (walk : Walk) : MerkleBlock :=
  { totalTransactions := fields.total
    header := fields.header
    valid :=
      !walk.state.bad &&
        decide (walk.state.hashIdx = walk.state.hashes.length) &&
        decide ((walk.state.bitIdx + 7) / 8 = walk.state.flags.length) &&
        decide (walk.hash.toList = merkleRootOf fields.header)
    matchedTxids := walk.state.matched }

def parseMerkleblock (mode : Mode) (payload : List UInt8) (fuel : Nat) :
    Option (Except (Fault String) MerkleBlock) :=
  match readFields payload 0 with
  | .error e => some (.error (.error e))
  | .ok (fields, _) =>
    (fields.walk doubleSha256 mode fuel).map (fun walk => walk.map fields.blockOf)

--- Heights

theorem keep32_eq {exact : Nat} (hLt : exact < 2 ^ 32) (mode : Mode) :
    keep32 mode exact = .ok (UInt32.ofNat exact) := by
  unfold keep32
  cases mode with
  | panics => exact if_pos hLt
  | wraps => rfl

theorem keepShift_eq {bits : UInt32} (hLt : bits.toNat < 32) (mode : Mode) (shifted : UInt32) :
    keepShift mode bits shifted = .ok shifted := by
  unfold keepShift
  cases mode with
  | panics => exact if_pos hLt
  | wraps => rfl

theorem toNat_oneShift (bits : UInt32) : ((1 : UInt32) <<< bits).toNat = 2 ^ (bits.toNat % 32) := by
  have hPower : 2 ^ (bits.toNat % 32) < 2 ^ 32 :=
    Nat.pow_lt_pow_right (by decide) (Nat.mod_lt _ (by decide))
  rw [UInt32.toNat_shiftLeft, Nat.shiftLeft_eq, UInt32.toNat_one, Nat.one_mul,
    Nat.mod_eq_of_lt hPower]

theorem shiftOne_eq {bits : UInt32} (hLt : bits.toNat < 32) (mode : Mode) :
    ∃ bit, shiftOne mode bits = .ok bit ∧ bit.toNat = 2 ^ bits.toNat := by
  refine ⟨(1 : UInt32) <<< bits, keepShift_eq hLt mode _, ?_⟩
  rw [toNat_oneShift, Nat.mod_eq_of_lt hLt]

/- The least power of two that is not below the total. -/
structure IsHeight (total : UInt32) (height : UInt32) : Prop where
  small : height.toNat ≤ 31
  upper : total.toNat ≤ 2 ^ height.toNat
  lower : ∀ k < height.toNat, 2 ^ k < total.toNat

/- By induction over how far the loop is from the end. -/
theorem heightLoop_returns (mode : Mode) {total : UInt32} (hTotal : total.toNat ≤ 2 ^ 31)
    (left : Nat) {h : UInt32} (hLeft : h.toNat + left = 31)
    (hBelow : ∀ k < h.toNat, 2 ^ k < total.toNat) :
    ∃ height, heightLoop mode total (left + 1) h = some (.ok height) ∧ IsHeight total height := by
  induction left generalizing h with
  | zero =>
    have hEnd : h.toNat = 31 := by omega
    rcases shiftOne_eq (by omega : h.toNat < 32) mode with ⟨bit, hShift, hBit⟩
    have hStops : ¬ bit < total := by
      rw [UInt32.lt_iff_toNat_lt, hBit, hEnd]
      omega
    refine ⟨h, ?_, by omega, ?_, hBelow⟩
    · rw [heightLoop, hShift]
      dsimp only
      rw [if_neg hStops]
    · rw [hEnd]
      exact hTotal
  | succ left ih =>
    rcases shiftOne_eq (by omega : h.toNat < 32) mode with ⟨bit, hShift, hBit⟩
    by_cases hGoes : bit < total
    · have hHere := hGoes
      rw [UInt32.lt_iff_toNat_lt, hBit] at hHere
      have hKeep := keep32_eq (by omega : h.toNat + 1 < 2 ^ 32) mode
      have hNext : (UInt32.ofNat (h.toNat + 1)).toNat = h.toNat + 1 :=
        UInt32.toNat_ofNat_of_lt' (by omega : h.toNat + 1 < 2 ^ 32)
      have hBelowNext : ∀ k < (UInt32.ofNat (h.toNat + 1)).toNat, 2 ^ k < total.toNat := by
        intro k hLt
        rcases Nat.lt_or_eq_of_le
            (by omega : k ≤ h.toNat) with
          hOld | rfl
        · exact hBelow k hOld
        · exact hHere
      rcases ih (by omega) hBelowNext with ⟨height, hLoop, hHeight⟩
      refine ⟨height, ?_, hHeight⟩
      rw [heightLoop, hShift]
      dsimp only
      rw [if_pos hGoes, hKeep]
      exact hLoop
    · refine ⟨h, ?_, by omega, ?_, hBelow⟩
      · rw [heightLoop, hShift]
        dsimp only
        rw [if_neg hGoes]
      · rw [UInt32.lt_iff_toNat_lt, hBit] at hGoes
        omega

/- Above the greatest power of two in a word no height is ever found: the shift panics, or it goes
   round for ever. -/
theorem heightLoop_stuck (mode : Mode) {total : UInt32} (hTotal : 2 ^ 31 < total.toNat) (fuel : Nat)
    (h : UInt32) :
    heightLoop mode total fuel h = none ∨ heightLoop mode total fuel h = some (.error .panic) := by
  induction fuel generalizing h with
  | zero => exact Or.inl rfl
  | succ fuel ih =>
    have hGoes : (1 : UInt32) <<< h < total := by
      rw [UInt32.lt_iff_toNat_lt, toNat_oneShift]
      apply lt_of_le_of_lt _ hTotal
      apply Nat.pow_le_pow_right (by decide)
      omega
    unfold heightLoop shiftOne keepShift keep32
    cases mode with
    | panics =>
      dsimp only
      split
      · rename_i fault hFault
        split at hFault
        · cases hFault
        · cases hFault
          exact Or.inr rfl
      · rename_i bit hBit
        split at hBit
        · cases hBit
          rw [if_pos hGoes]
          split
          · rename_i fault hFault
            split at hFault
            · cases hFault
            · cases hFault
              exact Or.inr rfl
          · rename_i next hNext
            exact ih next
        · cases hBit
    | wraps =>
      dsimp only
      rw [if_pos hGoes]
      exact ih _

/- More fuel changes no answer. -/
theorem heightLoop_mono {mode : Mode} {total : UInt32} {fuel : Nat} {h : UInt32}
    {result : Except (Fault String) UInt32} (hLoop : heightLoop mode total fuel h = some result)
    {more : Nat} (hMore : fuel ≤ more) : heightLoop mode total more h = some result := by
  induction fuel generalizing h more with
  | zero => cases hLoop
  | succ fuel ih =>
    rcases Nat.exists_eq_succ_of_ne_zero
        (by omega : more ≠ 0) with
      ⟨more, rfl⟩
    rw [heightLoop] at hLoop ⊢
    cases hShift : shiftOne mode h with
    | error fault =>
      rw [hShift] at hLoop
      exact hLoop
    | ok bit =>
      rw [hShift] at hLoop
      dsimp only at hLoop ⊢
      split at hLoop
      · rename_i hGoes
        rw [if_pos hGoes]
        cases hNext : keep32 mode (h.toNat + 1) with
        | error fault =>
          rw [hNext] at hLoop
          exact hLoop
        | ok next =>
          rw [hNext] at hLoop
          exact ih hLoop (by omega)
      · rename_i hStops
        rw [if_neg hStops]
        exact hLoop

--- Streams

/- The bits of the flags, the lowest of each byte first. -/
def flagBits (flags : List UInt8) : List Bool :=
  flags.flatMap (fun byte => (List.range 8).map (PartialMerkle.bitOf byte))

theorem flagBits_getElem? (flags : List UInt8) (i : Nat) :
    (flagBits flags)[i]? = flags[i / 8]?.map (fun byte => PartialMerkle.bitOf byte (i % 8)) := by
  induction flags generalizing i with
  | nil => rfl
  | cons byte flags ih =>
    unfold flagBits at ih ⊢
    rw [List.flatMap_cons]
    rcases Nat.lt_or_ge i 8 with hHere | hBehind
    · have hByte : i / 8 = 0 := by omega
      have hBit : i % 8 = i := by omega
      rw [List.getElem?_append_left (by simpa using hHere), hByte, hBit, List.getElem?_map,
        List.getElem?_range hHere]
      rfl
    · have hByte : i / 8 = (i - 8) / 8 + 1 := by omega
      have hBit : i % 8 = (i - 8) % 8 := by omega
      rw [List.getElem?_append_right (by simpa using hBehind),
        hByte, hBit, List.getElem?_cons_succ, ← ih]
      simp

theorem flagBits_length (flags : List UInt8) : (flagBits flags).length = 8 * flags.length := by
  induction flags with
  | nil => rfl
  | cons byte flags ih =>
    unfold flagBits at ih ⊢
    rw [List.flatMap_cons, List.length_append, ih, List.length_cons, List.length_map,
      List.length_range]
    omega

/- What is left of both streams. -/
structure At (pm : PartialMerkle) (bits : List Bool) (hashes : List (Vector UInt8 32)) : Prop where
  bits : (flagBits pm.flags).drop pm.bitIdx = bits
  hashes : pm.hashes.drop pm.hashIdx = hashes
  inside : pm.hashIdx ≤ pm.hashes.length

/- A walk that reads what a visit of the abstract tree does. -/
structure Follows (pm : PartialMerkle) (visit : PartialTree.Visit (Vector UInt8 32)) (walk : Walk) :
    Prop where
  total : walk.state.total = pm.total
  given : walk.state.hashes = pm.hashes
  flags : walk.state.flags = pm.flags
  rest : At walk.state visit.bits visit.hashes
  hash : walk.hash = visit.hash
  bitIdx : walk.state.bitIdx = pm.bitIdx + visit.calls
  matched : walk.state.matched = pm.matched ++ visit.matched
  bad : walk.state.bad = (pm.bad || visit.bad)
  hashed : walk.hashed = visit.hashed
  calls : walk.calls = visit.calls
  depth : walk.depth = visit.depth

variable {bits : List Bool} {pm : PartialMerkle} {hashes : List (Vector UInt8 32)}

theorem At.nextBit (hAt : At pm bits hashes) :
    pm.nextBit = (bits.headD false,
        { pm with
          bitIdx := pm.bitIdx + 1
          bad := pm.bad || bits.isEmpty }) := by
  have hBits := hAt.bits
  have hHead :
      bits.head? = pm.flags[pm.bitIdx / 8]?.map
          (fun byte => PartialMerkle.bitOf byte (pm.bitIdx % 8)) := by
    rw [← hBits, List.head?_drop, flagBits_getElem?]
  unfold PartialMerkle.nextBit
  cases hByte : pm.flags[pm.bitIdx / 8]? with
  | none =>
    rw [hByte, Option.map_none, List.head?_eq_none_iff] at hHead
    simp [hHead]
  | some byte =>
    rw [hByte, Option.map_some] at hHead
    rcases List.head?_eq_some_iff.mp hHead with ⟨rest, rfl⟩
    simp

theorem At.nextHash (hAt : At pm bits hashes) :
    pm.nextHash = (hashes.headD PartialMerkle.zeroHash,
        { pm with
          hashIdx :=
            if hashes.isEmpty then pm.hashIdx
            else pm.hashIdx + 1
          bad := pm.bad || hashes.isEmpty }) := by
  have hHead : hashes.head? = pm.hashes[pm.hashIdx]? := by rw [← hAt.hashes, List.head?_drop]
  unfold PartialMerkle.nextHash
  cases hHash : pm.hashes[pm.hashIdx]? with
  | none =>
    rw [hHash, List.head?_eq_none_iff] at hHead
    simp [hHead]
  | some h =>
    rw [hHash] at hHead
    rcases List.head?_eq_some_iff.mp hHead with ⟨rest, rfl⟩
    simp

theorem leafWalk_follows (hAt : At pm bits hashes) (found : Bool) :
    Follows pm (PartialTree.stop PartialMerkle.zeroHash bits hashes found)
      (leafWalk pm.nextBit.2 found) := by
  have hBits : (flagBits pm.flags).drop (pm.bitIdx + 1) = bits.tail := by
    rw [← hAt.bits, List.tail_drop]
  have hNext : At pm.nextBit.2 bits.tail hashes := by
    rw [hAt.nextBit]
    exact ⟨hBits, hAt.hashes, hAt.inside⟩
  have hRest := hAt.hashes
  unfold leafWalk PartialTree.stop
  rw [hNext.nextHash, hAt.nextBit]
  cases hashes with
  | nil =>
    cases found with
    | true =>
      exact ⟨rfl, rfl, rfl, ⟨hBits, hRest, hAt.inside⟩, rfl, rfl, rfl, Bool.or_assoc _ _ _, rfl,
        rfl, rfl⟩
    | false =>
      exact ⟨rfl, rfl, rfl, ⟨hBits, hRest, hAt.inside⟩, rfl, rfl, (List.append_nil _).symm,
        Bool.or_assoc _ _ _, rfl, rfl, rfl⟩
  | cons h hashes =>
    have hTail : pm.hashes.drop (pm.hashIdx + 1) = hashes := by
      rw [← List.tail_drop, hRest]
      rfl
    have hInside : pm.hashIdx + 1 ≤ pm.hashes.length := by
      have hLength := congrArg List.length hRest
      rw [List.length_drop, List.length_cons] at hLength
      omega
    cases found with
    | true =>
      exact
        ⟨rfl, rfl, rfl, ⟨hBits, hTail, hInside⟩, rfl, rfl, rfl, Bool.or_assoc _ _ _, rfl, rfl, rfl⟩
    | false =>
      exact ⟨rfl, rfl, rfl, ⟨hBits, hTail, hInside⟩, rfl, rfl, (List.append_nil _).symm,
        Bool.or_assoc _ _ _, rfl, rfl, rfl⟩

--- Walks Without Overflow

/- No step of the width leaves the words. -/
theorem width_eq (mode : Mode) {pm : PartialMerkle} (hTotal : pm.total.toNat ≤ 2 ^ 31)
    (hSome : 0 < pm.total.toNat) {height : Nat} (hHeight : height ≤ 30) :
    ∃ width,
    pm.width mode (UInt32.ofNat height) = .ok width ∧
      width.toNat = PartialTree.width pm.total.toNat height := by
  have hWord : (UInt32.ofNat height).toNat = height :=
    UInt32.toNat_ofNat_of_lt' (by
      change height < 2 ^ 32
      omega)
  have hPower : 2 ^ height ≤ 2 ^ 30 := Nat.pow_le_pow_right (by decide) hHeight
  have hPos := Nat.two_pow_pos height
  rcases @shiftOne_eq (UInt32.ofNat height) (by omega) mode with ⟨bit, hShift, hBit⟩
  rw [hWord] at hBit
  have hSum : pm.total.toNat + bit.toNat < 2 ^ 32 := by omega
  have hSumWord : (UInt32.ofNat (pm.total.toNat + bit.toNat)).toNat = pm.total.toNat + bit.toNat :=
    UInt32.toNat_ofNat_of_lt' hSum
  have hLess :
      lessOne mode (UInt32.ofNat (pm.total.toNat + bit.toNat)) =
        .ok (UInt32.ofNat (pm.total.toNat + bit.toNat) - 1) := by
    have hNonzero : UInt32.ofNat (pm.total.toNat + bit.toNat) ≠ 0 := by
      intro hZero
      rw [hZero] at hSumWord
      change 0 = pm.total.toNat + bit.toNat at hSumWord
      omega
    unfold lessOne
    cases mode with
    | panics => exact if_neg hNonzero
    | wraps => rfl
  refine ⟨(UInt32.ofNat (pm.total.toNat + bit.toNat) - 1) >>> UInt32.ofNat height, ?_, ?_⟩
  · unfold PartialMerkle.width
    rw [bind_of_ok hShift, bind_of_ok (keep32_eq hSum mode), bind_of_ok hLess]
    exact keepShift_eq (by omega) mode _
  · have hOne : (1 : UInt32) ≤ UInt32.ofNat (pm.total.toNat + bit.toNat) := by
      rw [UInt32.le_iff_toNat_le, hSumWord]
      change 1 ≤ pm.total.toNat + bit.toNat
      omega
    have hMod : height % 32 = height := Nat.mod_eq_of_lt (by omega)
    unfold PartialTree.width
    rw [UInt32.toNat_shiftRight, UInt32.toNat_sub_of_le _ _ hOne, hSumWord, hBit, hWord, hMod,
      Nat.shiftRight_eq_div_pow]
    rfl

variable (doubleSha256 : List UInt8 → Vector UInt8 32)

theorem edgeWalk_follows {visit : PartialTree.Visit (Vector UInt8 32)}
    {walk : Walk}
    (hStart : Follows { pm with bitIdx := pm.bitIdx + 1 } visit walk) :
    Follows pm (visit.double (cat doubleSha256)) (edgeWalk doubleSha256 walk) where
  total := hStart.total
  given := hStart.given
  flags := hStart.flags
  rest := hStart.rest
  hash := by
    unfold edgeWalk PartialTree.Visit.double
    rw [hStart.hash]
  bitIdx := by
    have hBit := hStart.bitIdx
    dsimp only at hBit
    unfold edgeWalk PartialTree.Visit.double
    dsimp only
    omega
  matched := hStart.matched
  bad := hStart.bad
  hashed := by
    unfold edgeWalk PartialTree.Visit.double
    rw [hStart.hash, hStart.hashed]
  calls := by
    unfold edgeWalk PartialTree.Visit.double
    rw [hStart.calls]
  depth := by
    unfold edgeWalk PartialTree.Visit.double
    rw [hStart.depth]

theorem innerWalk_follows {left right : PartialTree.Visit (Vector UInt8 32)}
    {leftWalk rightWalk : Walk}
    (hLeft : Follows { pm with bitIdx := pm.bitIdx + 1 } left leftWalk)
    (hRight : Follows leftWalk.state right rightWalk) :
    Follows pm (left.join (cat doubleSha256) right)
      (innerWalk doubleSha256 leftWalk rightWalk) := by
  have hSame :
      (if rightWalk.hash = leftWalk.hash then { rightWalk.state with bad := true }
      else rightWalk.state) =
        { rightWalk.state with
          bad :=
            rightWalk.state.bad ||
              decide (right.hash = left.hash) } := by
    rw [hRight.hash, hLeft.hash]
    split
    · rename_i hEq
      rw [decide_eq_true hEq, Bool.or_true]
    · rename_i hNe
      rw [decide_eq_false hNe, Bool.or_false]
  unfold innerWalk PartialTree.Visit.join
  rw [hSame]
  constructor
  · exact hRight.total.trans hLeft.total
  · exact hRight.given.trans hLeft.given
  · exact hRight.flags.trans hLeft.flags
  · exact ⟨hRight.rest.bits, hRight.rest.hashes, hRight.rest.inside⟩
  · rw [hLeft.hash, hRight.hash]
  · have hBit := hLeft.bitIdx
    have hNext := hRight.bitIdx
    dsimp only at hBit ⊢
    omega
  · dsimp only
    rw [hRight.matched, hLeft.matched, List.append_assoc]
  · dsimp only
    rw [hRight.bad, hLeft.bad]
    simp only [Bool.or_assoc]
  · rw [hLeft.hash, hRight.hash, hLeft.hashed, hRight.hashed]
  · rw [hLeft.calls, hRight.calls]
  · rw [hLeft.depth, hRight.depth]

/-
  Up to a total of two to the thirty-first, in each kind of build, the walk is the one of the
  abstract tree.  By induction over the height.
-/
theorem traverse_follows (mode : Mode) {height : Nat} (hHeight : height ≤ 31) {pos : UInt32}
    (hPos : pos.toNat < 2 ^ (31 - height)) {pm : PartialMerkle} (hTotal : pm.total.toNat ≤ 2 ^ 31)
    (hSome : 0 < pm.total.toNat) {bits : List Bool} {hashes : List (Vector UInt8 32)}
    (hAt : At pm bits hashes) :
    ∃ walk,
    traverse doubleSha256 mode height pos pm = .ok walk ∧
      Follows pm
        (PartialTree.read PartialMerkle.zeroHash (cat doubleSha256) pm.total.toNat height pos.toNat
          bits hashes) walk := by
  induction height generalizing pos pm bits hashes with
  | zero =>
    have hLeaf := leafWalk_follows hAt (bits.headD false)
    refine ⟨_, ?_, hLeaf⟩
    unfold traverse
    rw [hAt.nextBit]
  | succ height ih =>
    have hSteps := hAt.nextBit
    unfold PartialTree.read
    dsimp only
    cases hOpen : bits.headD false with
    | false =>
      have hLeaf := leafWalk_follows hAt false
      refine ⟨_, ?_, hLeaf⟩
      unfold traverse
      rw [hSteps, hOpen]
      rfl
    | true =>
      have hBits : bits.isEmpty = false := by
        cases bits with
        | nil => cases hOpen
        | cons bit bits => rfl
      have hOpened : pm.nextBit = (true, { pm with bitIdx := pm.bitIdx + 1 }) := by
        rw [hSteps, hOpen, hBits, Bool.or_false]
      have hBehind : At { pm with bitIdx := pm.bitIdx + 1 } bits.tail hashes := by
        refine ⟨?_, hAt.hashes, hAt.inside⟩
        rw [← hAt.bits, List.tail_drop]
      have hDouble : 2 ^ (31 - height) = 2 ^ (31 - (height + 1)) * 2 := by
        rw [← Nat.pow_succ]
        congr 1
        omega
      have hTop : 2 ^ (31 - height) ≤ 2 ^ 31 := Nat.pow_le_pow_right (by decide) (by omega)
      have hLeftLt : pos.toNat * 2 < 2 ^ 32 := by omega
      have hLeftPos : (UInt32.ofNat (pos.toNat * 2)).toNat = pos.toNat * 2 :=
        UInt32.toNat_ofNat_of_lt' hLeftLt
      have hRightLt : pos.toNat * 2 + 1 < 2 ^ 32 := by omega
      have hRightPos : (UInt32.ofNat (pos.toNat * 2 + 1)).toNat = pos.toNat * 2 + 1 :=
        UInt32.toNat_ofNat_of_lt' hRightLt
      rcases @ih (by omega) (UInt32.ofNat (pos.toNat * 2))
          (by omega) { pm with bitIdx := pm.bitIdx + 1 }
          hTotal hSome bits.tail hashes hBehind with
        ⟨left, hLeft, hLeftFollows⟩
      rw [hLeftPos] at hLeftFollows
      dsimp only at hLeftFollows
      have hKept : left.state.total = pm.total := hLeftFollows.total
      rcases @width_eq mode left.state
          (by rw [hKept]; exact hTotal)
          (by rw [hKept]; exact hSome)
          height (by omega) with
        ⟨width, hWidth, hWide⟩
      rw [hKept] at hWide
      have hWithin :
          UInt32.ofNat (pos.toNat * 2 + 1) < width ↔
          pos.toNat * 2 + 1 < PartialTree.width pm.total.toNat height := by
        rw [UInt32.lt_iff_toNat_lt, hRightPos, hWide]
      have hGoes :
          traverse doubleSha256 mode (height + 1) pos pm =
            if UInt32.ofNat (pos.toNat * 2 + 1) < width then
              (traverse doubleSha256 mode height (UInt32.ofNat (pos.toNat * 2 + 1)) left.state).bind
                (fun right => .ok (innerWalk doubleSha256 left right))
            else .ok (edgeWalk doubleSha256 left) := by
        rw [traverse, hOpened]
        dsimp only
        rw [if_neg (by decide), bind_of_ok (keep32_eq hLeftLt mode), bind_of_ok hLeft, hLeftPos,
          bind_of_ok (keep32_eq hRightLt mode), bind_of_ok hWidth]
        rfl
      rw [if_pos rfl, hGoes]
      by_cases hInside : pos.toNat * 2 + 1 < PartialTree.width pm.total.toNat height
      · rcases @ih (by omega)
            (UInt32.ofNat (pos.toNat * 2 + 1)) (by omega)
            left.state (by rw [hKept]; exact hTotal)
            (by rw [hKept]; exact hSome) _ _
            hLeftFollows.rest with
          ⟨right, hRight, hRightFollows⟩
        rw [hRightPos, hKept] at hRightFollows
        rw [if_pos (hWithin.mpr hInside), if_pos hInside, hRight]
        exact ⟨_, rfl, innerWalk_follows doubleSha256 hLeftFollows hRightFollows⟩
      · rw [if_neg (mt hWithin.mp hInside), if_neg hInside]
        exact ⟨_, rfl, edgeWalk_follows doubleSha256 hLeftFollows⟩

--- Safe Parses

/-
  For some fuel the parse comes to an end without a panic, at most as many calls deep as a word
  has bits, in no more calls than two for a flag and one.
-/
def ParsesSafely (mode : Mode) (payload : List UInt8) : Prop :=
  ∃ fuel result,
    parseMerkleblock doubleSha256 mode payload fuel = some result ∧
      result ≠ .error .panic ∧
      ∀ fields stop walk,
        readFields payload 0 = .ok (fields, stop) →
          fields.walk doubleSha256 mode fuel = some (.ok walk) →
          walk.depth ≤ 32 ∧ walk.calls ≤ 2 * (8 * fields.flags.length) + 1

variable {fields : Fields}

theorem readFields_some {payload : List UInt8} {stop : Nat}
    (hRead : readFields payload 0 = .ok (fields, stop)) : 0 < fields.total.toNat := by
  unfold readFields at hRead
  rcases Reader.bind_eq_ok_iff.mp hRead with ⟨header, _, -, hTotal⟩
  rcases Reader.bind_eq_ok_iff.mp hTotal with ⟨total, _, -, hSome⟩
  rcases Reader.bind_eq_ok_iff.mp hSome with ⟨_, _, hNonzero, hHashCount⟩
  rcases Reader.bind_eq_ok_iff.mp hHashCount with ⟨hashCount, _, -, hHashes⟩
  rcases Reader.bind_eq_ok_iff.mp hHashes with ⟨hashes, _, -, hFlagLen⟩
  rcases Reader.bind_eq_ok_iff.mp hFlagLen with ⟨flagLen, _, -, hFlags⟩
  rcases Reader.bind_eq_ok_iff.mp hFlags with ⟨flags, _, -, hFields⟩
  rcases Reader.pure_eq_ok_iff.mp hFields with ⟨rfl, -⟩
  have hAnswer := (Reader.lift_eq_ok_iff.mp hNonzero).1
  rw [Nat.pos_iff_ne_zero]
  intro hZero
  rw [if_pos (UInt32.toNat_inj.mp hZero)] at hAnswer
  cases hAnswer

/- Up to a total of two to the thirty-first the walk is that of the abstract tree. -/
theorem Fields.walk_follows (mode : Mode) (hTotal : fields.total.toNat ≤ 2 ^ 31)
    (hSome : 0 < fields.total.toNat) :
    ∃ height walk,
    IsHeight fields.total height ∧
      fields.walk doubleSha256 mode 32 = some (.ok walk) ∧
      Follows fields.start
        (PartialTree.read PartialMerkle.zeroHash (cat doubleSha256) fields.total.toNat height.toNat
          0 (flagBits fields.flags) fields.hashes) walk := by
  rcases @heightLoop_returns mode fields.total hTotal 31 0 rfl
    (fun k hLt => absurd hLt (Nat.not_lt_zero k)) with ⟨height, hLoop, hHeight⟩
  have hAt : At fields.start (flagBits fields.flags) fields.hashes := ⟨rfl, rfl, Nat.zero_le _⟩
  rcases @traverse_follows doubleSha256 mode height.toNat hHeight.small 0 (Nat.two_pow_pos _)
    fields.start hTotal hSome _ _ hAt with ⟨walk, hWalk, hFollows⟩
  refine ⟨height, walk, hHeight, ?_, hFollows⟩
  unfold Fields.walk treeHeight
  rw [hLoop, ← hWalk]

/- There is one walk, whatever the fuel. -/
theorem Fields.walk_unique {mode : Mode} {fuel fuel' : Nat}
    {result result' : Except (Fault String) Walk}
    (hWalk : fields.walk doubleSha256 mode fuel = some result)
    (hWalk' : fields.walk doubleSha256 mode fuel' = some result') : result = result' := by
  unfold Fields.walk treeHeight at hWalk hWalk'
  cases hLoop : heightLoop mode fields.total fuel 0 with
  | none =>
    rw [hLoop] at hWalk
    cases hWalk
  | some height =>
    cases hLoop' : heightLoop mode fields.total fuel' 0 with
    | none =>
      rw [hLoop'] at hWalk'
      cases hWalk'
    | some height' =>
      have hMax := heightLoop_mono hLoop (le_max_left fuel fuel')
      have hMax' := heightLoop_mono hLoop' (le_max_right fuel fuel')
      rw [hMax] at hMax'
      rw [hLoop] at hWalk
      rw [hLoop', ← hMax', hWalk] at hWalk'
      exact Option.some.inj hWalk'

/- Above it there is no walk. -/
theorem Fields.walk_stuck (mode : Mode) (hTotal : 2 ^ 31 < fields.total.toNat) (fuel : Nat) :
    fields.walk doubleSha256 mode fuel = none ∨
    fields.walk doubleSha256 mode fuel = some (.error .panic) := by
  unfold Fields.walk treeHeight
  rcases heightLoop_stuck mode hTotal fuel 0 with hNone | hPanic
  · rw [hNone]
    exact Or.inl rfl
  · rw [hPanic]
    exact Or.inr rfl

theorem parseMerkleblock_of_ok {payload : List UInt8} {stop : Nat}
    (hRead : readFields payload 0 = .ok (fields, stop)) (mode : Mode) (fuel : Nat) :
    parseMerkleblock doubleSha256 mode payload fuel =
      (fields.walk doubleSha256 mode fuel).map (fun walk => walk.map fields.blockOf) := by
  unfold parseMerkleblock
  rw [hRead]

/- A payload is parsed safely just where the total that it declares is none above two to the
   thirty-first. -/
theorem parse_safe_iff (mode : Mode) (payload : List UInt8) :
    ParsesSafely doubleSha256 mode payload ↔
    ∀ fields stop, readFields payload 0 = .ok (fields, stop) → fields.total.toNat ≤ 2 ^ 31 := by
  constructor
  · rintro ⟨fuel, result, hParse, hSafe, -⟩ fields stop hRead
    rw [parseMerkleblock_of_ok doubleSha256 hRead] at hParse
    by_contra hAbove
    rw [not_le] at hAbove
    rcases fields.walk_stuck doubleSha256 mode hAbove fuel with hNone | hPanic
    · rw [hNone] at hParse
      cases hParse
    · rw [hPanic] at hParse
      cases hParse
      exact hSafe rfl
  · intro hTotal
    cases hRead : readFields payload 0 with
    | error e =>
      refine ⟨0, .error (.error e), ?_, ?_, ?_⟩
      · unfold parseMerkleblock
        rw [hRead]
      · intro hPanic
        cases hPanic
      · intro fields stop walk hOk
        rw [hRead] at hOk
        cases hOk
    | ok found =>
      rcases found with ⟨fields, stop⟩
      rcases fields.walk_follows doubleSha256 mode (hTotal fields stop hRead)
        (readFields_some hRead) with ⟨height, walk, hHeight, hWalk, hFollows⟩
      refine ⟨32, .ok (fields.blockOf walk), ?_, ?_, ?_⟩
      · rw [parseMerkleblock_of_ok doubleSha256 hRead, hWalk]
        rfl
      · intro hPanic
        cases hPanic
      · intro fields' stop' walk' hRead' hWalk'
        rw [hRead] at hRead'
        cases hRead'
        rw [hWalk] at hWalk'
        cases hWalk'
        have hDeep :=
          PartialTree.depth_le PartialMerkle.zeroHash (cat doubleSha256) fields.total.toNat
            height.toNat 0 (flagBits fields.flags) fields.hashes
        have hCalls :=
          PartialTree.calls_le PartialMerkle.zeroHash (cat doubleSha256) fields.total.toNat
            height.toNat 0 (flagBits fields.flags) fields.hashes
        have hSet := @List.count_le_length _ _ true (flagBits fields.flags)
        rw [flagBits_length] at hSet
        have hSmall := hHeight.small
        rw [hFollows.depth, hFollows.calls]
        omega

/- Nothing but a total that is one above two to the thirty-first. -/
def overdrawn : List UInt8 := List.replicate 80 0 ++ [1, 0, 0, 128, 0, 0]

theorem overdrawn_total :
    (readFields overdrawn 0).toOption.map (fun found => found.1.total.toNat) =
      some (2 ^ 31 + 1) := by
  rfl

/- It is parsed safely in neither kind of build. -/
theorem overdrawn_not_safe : ¬ ∃ doubleSha256 mode, ParsesSafely doubleSha256 mode overdrawn := by
  rintro ⟨doubleSha256, mode, hSafe⟩
  rw [parse_safe_iff] at hSafe
  have hTotal := overdrawn_total
  cases hRead : readFields overdrawn 0 with
  | error e =>
    rw [hRead] at hTotal
    cases hTotal
  | ok found =>
    have hBelow := hSafe found.1 found.2 hRead
    rw [hRead] at hTotal
    have hSame : found.1.total.toNat = 2 ^ 31 + 1 := Option.some.inj hTotal
    omega

end OptnWallet.Bip37
