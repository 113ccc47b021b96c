import OptnWallet.Bip37.MerkleBlock
import OptnWallet.Library.ByteFormat.Spelling

/-
  The payloads that prove some leaves of a tree: how they are built, depth first, that what is
  built is parsed as valid with the leaves that were wanted, and that whatever is parsed as valid
  matches leaves of the tree alone.

  Main declarations:
    * `Bip37.readFields_bytes`
    * `Bip37.partialTree`
    * `Bip37.Complete` and `Bip37.Sound`
    * `Bip37.partial_trees_iff`
-/

namespace OptnWallet

open PartialTree

namespace Bip37

open ByteFormat
open Overflow (Mode)

--- Payloads

def writeVarint (n : UInt64) : List UInt8 :=
  if n < 0xfd then [n.toUInt8]
  else if n ≤ 0xffff then 0xfd :: bytesLE n.toUInt16.toNat 2
  else if n ≤ 0xffffffff then 0xfe :: bytesLE n.toUInt32.toNat 4
  else 0xff :: bytesLE n.toNat 8

def Fields.bytes (fields : Fields) : List UInt8 :=
  fields.header.toList ++ (bytesLE fields.total.toNat 4 ++
      (writeVarint (UInt64.ofNat fields.hashes.length) ++ (fields.hashes.flatMap Vector.toList ++
          (writeVarint (UInt64.ofNat fields.flags.length) ++ fields.flags))))

theorem readsPiece_checkedAdd {α : Type} {reader : Reader String α} {piece : List UInt8} {value : α}
    (hReads : ReadsPiece (2 ^ 64) reader piece value) :
    ReadsPiece (2 ^ 64) (checkedAdd piece.length reader) piece value := by
  intro before after hLimit
  have hBelow : ¬ 2 ^ 64 ≤ before.length + piece.length := by
    rw [List.length_append, List.length_append] at hLimit
    omega
  unfold checkedAdd
  rw [if_neg hBelow]
  exact hReads before after hLimit

theorem readsPiece_take {count : Nat} {piece : List UInt8} (hLength : piece.length = count) :
    ReadsPiece (2 ^ 64) (take count) piece piece := by
  subst hLength
  apply readsPiece_checkedAdd
  exact ReadsPiece.of_readsAs (ReadsAs.take _ _) ⟨rfl, rfl⟩

theorem readsPiece_takeArray {count : Nat} (value : Vector UInt8 count) :
    ReadsPiece (2 ^ 64) (takeArray count) value.toList value := by
  have hReads :
      ReadsPiece (2 ^ 64) (Reader.takeArray "truncated message" count) value.toList value :=
    ReadsPiece.of_readsAs (ReadsAs.takeArray _ _) rfl
  have hChecked := readsPiece_checkedAdd hReads
  rw [Vector.length_toList] at hChecked
  exact hChecked

/- A word is read from its bytes, lowest first. -/
theorem readsPiece_word {α : Type} {count value : Nat} (hValue : value < 256 ^ count)
    (wordOf : Nat → α) :
    ReadsPiece (2 ^ 64)
      (do
        let bytes ← take count
        return wordOf (natOfBytesLE bytes))
      (bytesLE value count) (wordOf value) := by
  rw [← List.append_nil (bytesLE value count)]
  apply (readsPiece_take (length_bytesLE _ _)).bind
  rw [natOfBytesLE_bytesLE hValue]
  exact ReadsPiece.pure _

theorem readsPiece_readU32 (value : UInt32) :
    ReadsPiece (2 ^ 64) readU32 (bytesLE value.toNat 4) value := by
  have hReads := @readsPiece_word _ 4 _ value.toNat_lt UInt32.ofNat
  rw [UInt32.ofNat_toNat] at hReads
  exact hReads

theorem readsPiece_readU64 (value : UInt64) :
    ReadsPiece (2 ^ 64) readU64 (bytesLE value.toNat 8) value := by
  have hReads := @readsPiece_word _ 8 _ value.toNat_lt UInt64.ofNat
  rw [UInt64.ofNat_toNat] at hReads
  exact hReads

/- What follows the first byte of a count. -/
def readBehind (first : UInt8) : Reader String UInt64 :=
  if first = 0xff then readU64
  else if first = 0xfe then do
    let value ← readU32
    return value.toUInt64
  else if first = 0xfd then do
    let bytes ← take 2
    return UInt64.ofNat (natOfBytesLE bytes)
  else return first.toUInt64

theorem readsPiece_first {first : UInt8} {tail : List UInt8} {value : UInt64}
    (hBehind : ReadsPiece (2 ^ 64) (readBehind first) tail value) :
    ReadsPiece (2 ^ 64) readVarint (first :: tail) value := by
  have hFirst : ReadsPiece (2 ^ 64) (takeArray 1) [first] #v[first] :=
    readsPiece_takeArray #v[first]
  exact hFirst.bind hBehind

theorem readsPiece_readVarint (n : UInt64) : ReadsPiece (2 ^ 64) readVarint (writeVarint n) n := by
  unfold writeVarint
  split_ifs with hByte hWord hLong
  · rw [UInt64.lt_iff_toNat_lt] at hByte
    change n.toNat < 253 at hByte
    have hSame : n.toUInt8.toNat = n.toNat := by
      rw [UInt64.toNat_toUInt8]
      omega
    have hKept : n.toUInt8.toUInt64 = n := by
      apply UInt64.toNat_inj.mp
      rw [UInt8.toNat_toUInt64, hSame]
    have hOther : ∀ marker : UInt8, 253 ≤ marker.toNat → n.toUInt8 ≠ marker := by
      intro marker hMarker hEq
      rw [← hEq] at hMarker
      omega
    apply readsPiece_first
    unfold readBehind
    rw [if_neg (hOther _ (by decide)), if_neg (hOther _ (by decide)),
      if_neg (hOther _ (by decide)), hKept]
    exact ReadsPiece.pure n
  · rw [UInt64.le_iff_toNat_le] at hWord
    change n.toNat ≤ 65535 at hWord
    have hSame : n.toUInt16.toNat = n.toNat := by
      rw [UInt64.toNat_toUInt16]
      omega
    have hReads := @readsPiece_word _ 2 n.toNat (by omega) UInt64.ofNat
    rw [UInt64.ofNat_toNat] at hReads
    rw [hSame]
    exact readsPiece_first hReads
  · rw [UInt64.le_iff_toNat_le] at hLong
    change n.toNat ≤ 4294967295 at hLong
    have hSame : n.toUInt32.toNat = n.toNat := by
      rw [UInt64.toNat_toUInt32]
      omega
    have hKept : n.toUInt32.toUInt64 = n := by
      apply UInt64.toNat_inj.mp
      rw [UInt32.toNat_toUInt64, hSame]
    have hReads :
        ReadsPiece (2 ^ 64) (readBehind 0xfe) (bytesLE n.toUInt32.toNat 4 ++ [])
          n.toUInt32.toUInt64 :=
      (readsPiece_readU32 n.toUInt32).bind (ReadsPiece.pure _)
    rw [List.append_nil, hKept] at hReads
    exact readsPiece_first hReads
  · exact readsPiece_first (readsPiece_readU64 n)

theorem length_hashBytes (hashes : List (Vector UInt8 32)) :
    (hashes.flatMap Vector.toList).length = 32 * hashes.length := by
  induction hashes with
  | nil => rfl
  | cons h hashes ih =>
    rw [List.flatMap_cons, List.length_append, ih, Vector.length_toList, List.length_cons]
    omega

theorem toNat_lengthWord {length : Nat} (hLength : length < 2 ^ 64) :
    (UInt64.ofNat length).toNat = length := UInt64.toNat_ofNat_of_lt' hLength

variable {fields : Fields}

/- The bytes of fields are read as the fields. -/
theorem readFields_bytes (hSome : fields.total ≠ 0) (hLength : fields.bytes.length < 2 ^ 64) :
    readFields fields.bytes 0 = .ok (fields, fields.bytes.length) := by
  have hSizes := hLength
  unfold Fields.bytes at hSizes
  simp only [List.length_append] at hSizes
  rw [length_hashBytes] at hSizes
  have hHashCount := toNat_lengthWord (by omega : fields.hashes.length < 2 ^ 64)
  have hFlagLen := toNat_lengthWord (by omega : fields.flags.length < 2 ^ 64)
  have hNonzero : ReadsPiece (2 ^ 64) (refuseEmpty fields.total) [] () := by
    intro before after _
    unfold refuseEmpty
    rw [if_neg hSome]
    rfl
  have hHeader :
      ReadsPiece (2 ^ 64) (Reader.takeArray "merkleblock shorter than a header" 80)
        fields.header.toList fields.header :=
    ReadsPiece.of_readsAs (ReadsAs.takeArray _ _) rfl
  have hHashes := ReadsPiece.many (@readsPiece_takeArray 32) fields.hashes
  have hFlags := @readsPiece_take _ fields.flags rfl
  rw [← hHashCount] at hHashes
  rw [← hFlagLen] at hFlags
  have hEnd :
      ReadsPiece (2 ^ 64)
        (take (UInt64.ofNat fields.flags.length).toNat >>=
          fun flags => (Pure.pure { fields with flags } : Reader String Fields))
        (fields.flags ++ []) fields :=
    hFlags.bind (ReadsPiece.pure fields)
  rw [List.append_nil] at hEnd
  have hReads : ReadsPiece (2 ^ 64) readFields fields.bytes fields := by
    unfold readFields Fields.bytes
    refine hHeader.bind ?_
    refine (readsPiece_readU32 fields.total).bind ?_
    rw [← List.nil_append (writeVarint _ ++ _)]
    refine hNonzero.bind ?_
    refine (readsPiece_readVarint _).bind ?_
    refine hHashes.bind ?_
    refine (readsPiece_readVarint _).bind ?_
    exact hEnd
  exact hReads.readWhole hLength

--- Flags

/- Eight bits at most, the lowest first. -/
def packByte (bits : List Bool) : UInt8 :=
  UInt8.ofNat (Nat.ofBits (fun off : Fin 8 => bits.getD off.val false))

def packFlags (bits : List Bool) : List UInt8 :=
  (List.range ((bits.length + 7) / 8)).map (fun i => packByte (bits.drop (8 * i)))

theorem length_packFlags (bits : List Bool) : (packFlags bits).length = (bits.length + 7) / 8 := by
  unfold packFlags
  rw [List.length_map, List.length_range]

theorem bitOf_eq_testBit (byte : UInt8) {off : Nat} (hOff : off < 8) :
    PartialMerkle.bitOf byte off = byte.toNat.testBit off := by
  have hShift : (UInt8.ofNat off).toNat % 8 = off := by
    rw [UInt8.toNat_ofNat']
    omega
  unfold PartialMerkle.bitOf
  rw [Nat.testBit_eq_decide_div_mod_eq]
  apply decide_eq_decide.mpr
  rw [← UInt8.toNat_inj, UInt8.toNat_and, UInt8.toNat_shiftRight, hShift, Nat.shiftRight_eq_div_pow]
  change byte.toNat / 2 ^ off &&& 1 = 1 ↔ _
  rw [Nat.and_one_is_mod]

theorem bitOf_packByte (bits : List Bool) {off : Nat} (hOff : off < 8) :
    PartialMerkle.bitOf (packByte bits) off = bits.getD off false := by
  have hByte : (packByte bits).toNat = Nat.ofBits (fun off : Fin 8 => bits.getD off.val false) :=
    UInt8.toNat_ofNat_of_lt' (Nat.ofBits_lt_two_pow _)
  rw [bitOf_eq_testBit _ hOff, hByte, Nat.testBit_ofBits_lt _ _ hOff]

/- The bits come first in the bytes that they are packed into. -/
theorem flagBits_packFlags (bits : List Bool) :
    ∃ padding, flagBits (packFlags bits) = bits ++ padding := by
  have hPrefix : bits <+: flagBits (packFlags bits) := by
    rw [List.prefix_iff_getElem?]
    intro i hLt
    have hByte : i / 8 < (bits.length + 7) / 8 := by omega
    have hPlace : 8 * (i / 8) + i % 8 = i := Nat.div_add_mod i 8
    have hPacked : (packFlags bits)[i / 8]? = some (packByte (bits.drop (8 * (i / 8)))) := by
      unfold packFlags
      rw [List.getElem?_map, List.getElem?_range hByte]
      rfl
    rw [flagBits_getElem?, hPacked, Option.map_some, bitOf_packByte _ (Nat.mod_lt _ (by decide)),
      List.getD_eq_getElem?_getD, List.getElem?_drop, hPlace, List.getElem?_eq_getElem hLt]
    rfl
  rcases hPrefix with ⟨padding, hSame⟩
  exact ⟨padding, hSame.symm⟩

--- Standard Trees

variable (doubleSha256 : List UInt8 → Vector UInt8 32)

/- The fields that prove the wanted leaves. -/
def partialTree (header : Vector UInt8 80) (total : UInt32) (leaves : List (Vector UInt8 32))
    (wanted : Vector UInt8 32 → Bool) : Fields :=
  let tree :=
    build PartialMerkle.zeroHash (cat doubleSha256) leaves wanted (Nat.clog 2 leaves.length) 0
  { header, total, hashes := tree.2, flags := packFlags tree.1 }

theorem IsHeight.eq_clog {total height : UInt32} (hHeight : IsHeight total height) :
    height.toNat = Nat.clog 2 total.toNat := by
  apply le_antisymm
  · by_contra hAbove
    rw [not_le] at hAbove
    have hLower := hHeight.lower _ hAbove
    exact absurd (Nat.le_pow_clog (by decide) total.toNat) (not_le.mpr hLower)
  · exact Nat.clog_le_of_le_pow hHeight.upper

theorem length_writeVarint_le (n : UInt64) : (writeVarint n).length ≤ 9 := by
  unfold writeVarint
  split_ifs with hByte hWord hLong
  · exact Nat.le_add_left 1 8
  · rw [List.length_cons, length_bytesLE]
    omega
  · rw [List.length_cons, length_bytesLE]
    omega
  · rw [List.length_cons, length_bytesLE]

/- What is built fits any message. -/
theorem length_partialTree (header : Vector UInt8 80) (total : UInt32)
    {leaves : List (Vector UInt8 32)} (hCount : leaves.length < 2 ^ 32)
    (wanted : Vector UInt8 32 → Bool) :
    (partialTree doubleSha256 header total leaves wanted).bytes.length < 2 ^ 64 := by
  have hBuilt :=
    build_length PartialMerkle.zeroHash (cat doubleSha256) leaves wanted
      (Nat.clog 2 leaves.length) 0
  have hHeight : Nat.clog 2 leaves.length ≤ 32 := Nat.clog_le_of_le_pow hCount.le
  have hNodes : 2 ^ (Nat.clog 2 leaves.length + 1) ≤ 2 ^ 33 :=
    Nat.pow_le_pow_right (by decide) (by omega)
  have hHashCount :=
    length_writeVarint_le
      (UInt64.ofNat (partialTree doubleSha256 header total leaves wanted).hashes.length)
  have hFlagLen :=
    length_writeVarint_le
      (UInt64.ofNat (partialTree doubleSha256 header total leaves wanted).flags.length)
  have hFlags : (partialTree doubleSha256 header total leaves wanted).flags.length = _ :=
    length_packFlags _
  have hHashes : (partialTree doubleSha256 header total leaves wanted).hashes.length < _ := hBuilt.2
  unfold Fields.bytes
  simp only [List.length_append, length_hashBytes, length_bytesLE, Vector.length_toList]
  omega

--- Soundness And Completeness

/- The pairs that are hashed in the tree of the leaves. -/
def treePairs (leaves : List (Vector UInt8 32)) : Set (Vector UInt8 32 × Vector UInt8 32) :=
  MerkleTree.hashedPairs (cat doubleSha256) (Nat.clog 2 leaves.length) leaves

/- The pairs that are hashed when a payload is parsed. -/
def parsedPairs (mode : Mode) (payload : List UInt8) : Set (Vector UInt8 32 × Vector UInt8 32) :=
  {nodes | ∃ fields stop fuel walk,
    readFields payload 0 = .ok (fields, stop) ∧
      fields.walk doubleSha256 mode fuel = some (.ok walk) ∧
      nodes ∈ walk.hashed}

/- The root in the header is that of the leaves. -/
def CommitsTo (header : Vector UInt8 80) (leaves : List (Vector UInt8 32)) : Prop :=
  ∃ root,
    MerkleTree.merkleRoot (cat doubleSha256) leaves = some root ∧ root.toList = merkleRootOf header

section

variable (mode : Mode) (header : Vector UInt8 80) (total : UInt32) (leaves : List (Vector UInt8 32))

/- Whichever leaves are wanted, the tree that proves them is parsed as valid, with these leaves
   matched in order. -/
def Complete : Prop :=
  ∀ wanted,
    ∃ fuel block,
      parseMerkleblock doubleSha256 mode (partialTree doubleSha256 header total leaves wanted).bytes
            fuel = some (.ok block) ∧
        block.valid = true ∧
        block.matchedTxids = leaves.filter wanted

/- Whatever is parsed as valid, with this header and this total and without a collision, matches
   leaves in order, each of them once. -/
def Sound : Prop :=
  ∀ payload fuel block,
    parseMerkleblock doubleSha256 mode payload fuel = some (.ok block) →
      block.header = header →
      block.totalTransactions = total →
      block.valid = true →
      Set.InjOn (MerkleTree.pairUp (cat doubleSha256))
        (treePairs doubleSha256 leaves ∪ parsedPairs doubleSha256 mode payload) →
      block.matchedTxids.Sublist leaves ∧ block.matchedTxids.Nodup

end

theorem parseMerkleblock_eq_ok {mode : Mode} {payload : List UInt8} {fuel : Nat}
    {block : MerkleBlock}
    (hParse : parseMerkleblock doubleSha256 mode payload fuel = some (.ok block)) :
    ∃ fields stop walk,
    readFields payload 0 = .ok (fields, stop) ∧
      fields.walk doubleSha256 mode fuel = some (.ok walk) ∧
      block = fields.blockOf walk := by
  cases hRead : readFields payload 0 with
  | error e =>
    unfold parseMerkleblock at hParse
    rw [hRead] at hParse
    cases hParse
  | ok found =>
    rcases found with ⟨fields, stop⟩
    rw [parseMerkleblock_of_ok doubleSha256 hRead] at hParse
    rcases Option.map_eq_some_iff.mp hParse with ⟨result, hWalk, hBlock⟩
    cases result with
    | error fault => cases hBlock
    | ok walk => exact ⟨fields, stop, walk, rfl, hWalk, (Except.ok.inj hBlock).symm⟩

/- A walk is that of the abstract tree, as high as the total makes it. -/
theorem Fields.follows_of_walk {mode : Mode} (hSome : 0 < fields.total.toNat) {fuel : Nat}
    {walk : Walk} (hWalk : fields.walk doubleSha256 mode fuel = some (.ok walk)) :
    fields.total.toNat ≤ 2 ^ 31 ∧
    Follows fields.start
      (read PartialMerkle.zeroHash (cat doubleSha256) fields.total.toNat
        (Nat.clog 2 fields.total.toNat) 0 (flagBits fields.flags) fields.hashes) walk := by
  have hTotal : fields.total.toNat ≤ 2 ^ 31 := by
    by_contra hAbove
    rw [not_le] at hAbove
    rcases fields.walk_stuck doubleSha256 mode hAbove fuel with hNone | hPanic
    · rw [hNone] at hWalk
      cases hWalk
    · rw [hPanic] at hWalk
      cases hWalk
  rcases fields.walk_follows doubleSha256 mode hTotal hSome with
    ⟨height, walk', hHeight, hWalk', hFollows⟩
  have hSame := Fields.walk_unique doubleSha256 hWalk hWalk'
  cases hSame
  rw [hHeight.eq_clog] at hFollows
  exact ⟨hTotal, hFollows⟩

/- Both streams are used up just where the abstract walk leaves no hashes and took a call for each
   flag. -/
theorem Fields.blockOf_valid_iff {walk : Walk} {visit : Visit (Vector UInt8 32)}
    (hFollows : Follows fields.start visit walk) :
    (fields.blockOf walk).valid = true ↔
    visit.bad = false ∧
      visit.hashes = [] ∧
      (visit.calls + 7) / 8 = fields.flags.length ∧
      visit.hash.toList = merkleRootOf fields.header := by
  have hBad : walk.state.bad = visit.bad := hFollows.bad
  have hCalls : walk.state.bitIdx = visit.calls := by
    rw [hFollows.bitIdx]
    exact Nat.zero_add _
  have hFlags : walk.state.flags = fields.flags := hFollows.flags
  have hUsed : walk.state.hashIdx = walk.state.hashes.length ↔ visit.hashes = [] := by
    have hInside := hFollows.rest.inside
    rw [← hFollows.rest.hashes, List.drop_eq_nil_iff]
    omega
  unfold Fields.blockOf
  dsimp only
  rw [Bool.and_eq_true, Bool.and_eq_true, Bool.and_eq_true, decide_eq_true_iff, decide_eq_true_iff,
    decide_eq_true_iff, Bool.not_eq_true', hBad, hCalls, hFlags, hUsed, hFollows.hash]
  tauto

section

variable {mode : Mode} {header : Vector UInt8 80} {total : UInt32} {leaves : List (Vector UInt8 32)}

/- The node at the top is the root that the header has. -/
theorem CommitsTo.top (hCommits : CommitsTo doubleSha256 header leaves) (hSome : leaves ≠ []) :
    ∃ root,
    MerkleTree.level (cat doubleSha256) (Nat.clog 2 leaves.length) leaves = [root] ∧
      root.toList = merkleRootOf header := by
  rcases hCommits with ⟨root, hMerkle, hRoot⟩
  rcases level_clog (cat doubleSha256) hSome with ⟨top, hLevel, hTop⟩
  rw [hMerkle] at hTop
  cases hTop
  exact ⟨root, hLevel, hRoot⟩

theorem sound_of_commits (hSome : leaves ≠ []) (hNodup : leaves.Nodup)
    (hTotal : total.toNat = leaves.length) (hCommits : CommitsTo doubleSha256 header leaves) :
    Sound doubleSha256 mode header total leaves := by
  intro payload fuel block hParse hHeader hTotals hValid hInjOn
  rcases parseMerkleblock_eq_ok doubleSha256 hParse with ⟨fields, stop, walk, hRead, hWalk, rfl⟩
  change fields.header = header at hHeader
  change fields.total = total at hTotals
  subst hHeader hTotals
  rcases fields.follows_of_walk doubleSha256 (readFields_some hRead) hWalk with ⟨-, hFollows⟩
  rw [hTotal] at hFollows
  rcases (Fields.blockOf_valid_iff hFollows).mp hValid with ⟨-, -, -, hHash⟩
  rcases hCommits.top doubleSha256 hSome with ⟨root, hLevel, hRoot⟩
  have hSame :
      root = (read PartialMerkle.zeroHash (cat doubleSha256) leaves.length
          (Nat.clog 2 leaves.length) 0 (flagBits fields.flags) fields.hashes).hash :=
    Vector.toList_inj.mp (hRoot.trans hHash.symm)
  have hSublist :=
    @matched_sublist _ PartialMerkle.zeroHash (cat doubleSha256) _ leaves _ hInjOn
      (Nat.clog 2 leaves.length)
      (fun k hLt nodes hMem => Or.inl ⟨k, hLt, hMem⟩) 0
      (flagBits fields.flags) fields.hashes
      (by
        intro nodes hMem
        rw [← hFollows.hashed] at hMem
        exact Or.inr ⟨fields, stop, fuel, walk, hRead, hWalk, hMem⟩)
      (by rw [hLevel, hSame]; rfl)
  rw [segment_whole (Nat.le_pow_clog (by decide) _)] at hSublist
  have hMatched : (fields.blockOf walk).matchedTxids = _ :=
    hFollows.matched.trans (List.nil_append _)
  rw [hMatched]
  exact ⟨hSublist, hSublist.nodup hNodup⟩

theorem readFields_partialTree (header : Vector UInt8 80) (hSome : leaves ≠ [])
    (hTotal : total.toNat = leaves.length) (wanted : Vector UInt8 32 → Bool) :
    readFields (partialTree doubleSha256 header total leaves wanted).bytes 0 = .ok
        (partialTree doubleSha256 header total leaves wanted,
          (partialTree doubleSha256 header total leaves wanted).bytes.length) := by
  have hPos := List.length_pos_of_ne_nil hSome
  apply readFields_bytes
  · intro hZero
    change total = 0 at hZero
    rw [hZero] at hTotal
    exact absurd hTotal hPos.ne
  · apply length_partialTree
    rw [← hTotal]
    exact total.toNat_lt

/- No tree with a greater total is parsed. -/
theorem not_complete_of_lt (hSome : leaves ≠ []) (hTotal : total.toNat = leaves.length)
    (hAbove : 2 ^ 31 < leaves.length) : ¬ Complete doubleSha256 mode header total leaves := by
  intro hComplete
  rcases hComplete (fun _ => false) with ⟨fuel, block, hParse, -⟩
  rcases parseMerkleblock_eq_ok doubleSha256 hParse with ⟨fields, stop, walk, hRead, hWalk, -⟩
  have hBelow := (Fields.follows_of_walk doubleSha256 (readFields_some hRead) hWalk).1
  rw [readFields_partialTree doubleSha256 header hSome hTotal] at hRead
  cases hRead
  change total.toNat ≤ 2 ^ 31 at hBelow
  omega

theorem top_inside (hSome : leaves ≠ []) : 0 < width leaves.length (Nat.clog 2 leaves.length) := by
  rw [lt_width_iff, Nat.zero_mul]
  exact List.length_pos_of_ne_nil hSome

/- What is built for the leaves is read back. -/
theorem reads_partialTree (hSome : leaves ≠ []) (hNodup : leaves.Nodup)
    (hInjOn : Set.InjOn (MerkleTree.pairUp (cat doubleSha256)) (treePairs doubleSha256 leaves))
    (wanted : Vector UInt8 32 → Bool) :
    ∃ padding,
    ReadsBack PartialMerkle.zeroHash (cat doubleSha256) leaves wanted
      (Nat.clog 2 leaves.length) 0 padding []
      (read PartialMerkle.zeroHash (cat doubleSha256) leaves.length
        (Nat.clog 2 leaves.length) 0
        (flagBits (partialTree doubleSha256 header total leaves wanted).flags)
        (partialTree doubleSha256 header total leaves wanted).hashes) := by
  have hTree :
      ∀ k < Nat.clog 2 leaves.length,
      ∀ nodes ∈ MerkleTree.siblings (MerkleTree.level (cat doubleSha256) k leaves),
        nodes ∈ treePairs doubleSha256 leaves :=
    fun k hLt nodes hMem => ⟨k, hLt, hMem⟩
  have hDistinct := nodup_level_of_injOn (cat doubleSha256) hNodup hInjOn hTree
  rcases flagBits_packFlags
    (build PartialMerkle.zeroHash (cat doubleSha256) leaves wanted
      (Nat.clog 2 leaves.length) 0).1 with ⟨padding, hFlags⟩
  have hReads :=
    reads_build PartialMerkle.zeroHash (cat doubleSha256)
      (fun k hLt => hDistinct k hLt.le) (top_inside hSome) wanted padding []
  rw [List.append_nil, ← hFlags] at hReads
  exact ⟨padding, hReads⟩

theorem complete_of_le (hSome : leaves ≠ []) (hNodup : leaves.Nodup)
    (hTotal : total.toNat = leaves.length) (hCommits : CommitsTo doubleSha256 header leaves)
    (hInjOn : Set.InjOn (MerkleTree.pairUp (cat doubleSha256)) (treePairs doubleSha256 leaves))
    (hSmall : leaves.length ≤ 2 ^ 31) : Complete doubleSha256 mode header total leaves := by
  intro wanted
  have hRead := readFields_partialTree doubleSha256 header hSome hTotal wanted
  have hDeclared :
      (partialTree doubleSha256 header total leaves wanted).total.toNat = leaves.length :=
    hTotal
  rcases (partialTree doubleSha256 header total leaves wanted).walk_follows doubleSha256 mode
      (by rw [hDeclared]; exact hSmall)
      (readFields_some hRead) with
    ⟨-, walk, -, hWalk, -⟩
  rcases Fields.follows_of_walk doubleSha256 (readFields_some hRead) hWalk with ⟨-, hFollows⟩
  rw [hDeclared] at hFollows
  rcases @reads_partialTree doubleSha256 header total leaves hSome hNodup hInjOn wanted with
    ⟨padding, hReads⟩
  rcases hCommits.top doubleSha256 hSome with ⟨root, hLevel, hRoot⟩
  have hTop := level_calcHash PartialMerkle.zeroHash (cat doubleSha256) (top_inside hSome)
  rw [hLevel] at hTop
  refine ⟨32, (partialTree doubleSha256 header total leaves wanted).blockOf walk, ?_, ?_, ?_⟩
  · rw [parseMerkleblock_of_ok doubleSha256 hRead, hWalk]
    rfl
  · apply (Fields.blockOf_valid_iff hFollows).mpr
    refine ⟨hReads.good, hReads.hashes, ?_, ?_⟩
    · rw [hReads.calls]
      exact (length_packFlags _).symm
    · rw [hReads.hash, ← Option.some.inj hTop]
      exact hRoot
  · have hMatched :
        ((partialTree doubleSha256 header total leaves wanted).blockOf walk).matchedTxids = _ :=
      hFollows.matched.trans (List.nil_append _)
    rw [hMatched, hReads.matched, segment_whole (Nat.le_pow_clog (by decide) _)]

/-
  For distinct leaves that the header commits to, with no two pairs of their tree colliding, trees
  are complete and sound just where there are no more than two to the thirty-first.
-/
theorem partial_trees_iff (mode : Mode) (hSome : leaves ≠ []) (hNodup : leaves.Nodup)
    (hTotal : total.toNat = leaves.length) (hCommits : CommitsTo doubleSha256 header leaves)
    (hInjOn : Set.InjOn (MerkleTree.pairUp (cat doubleSha256)) (treePairs doubleSha256 leaves)) :
    Complete doubleSha256 mode header total leaves ∧ Sound doubleSha256 mode header total leaves ↔
    leaves.length ≤ 2 ^ 31 := by
  constructor
  · rintro ⟨hComplete, -⟩
    by_contra hAbove
    rw [not_le] at hAbove
    exact not_complete_of_lt doubleSha256 hSome hTotal hAbove hComplete
  · intro hSmall
    exact ⟨complete_of_le doubleSha256 hSome hNodup hTotal hCommits hInjOn hSmall,
      sound_of_commits doubleSha256 hSome hNodup hTotal hCommits⟩

end

/- The double SHA-256 of a leaf of ones and a leaf of twos. -/
def twoRoot : Vector UInt8 32 :=
  #v[0x39, 0xce, 0x20, 0xbe, 0xde, 0x82, 0xc9, 0x6b, 0x89, 0x08, 0xbe, 0xc4, 0xa1, 0x57, 0xb0, 0x9c,
      0x54, 0x9b, 0x3d, 0xb9, 0x0b, 0x9b, 0x47, 0x4b,
      0xda, 0x9a, 0xe9, 0xb9, 0x03, 0x03, 0x10, 0xb4]

def twoLeaves : List (Vector UInt8 32) := [Vector.replicate 32 1, Vector.replicate 32 2]

def twoHeader : Vector UInt8 80 :=
  Vector.replicate 36 (0 : UInt8) ++ twoRoot ++ Vector.replicate 12 (0 : UInt8)

theorem two_trees :
    Complete (fun _ => twoRoot) .panics twoHeader 2 twoLeaves ∧
    Sound (fun _ => twoRoot) .panics twoHeader 2 twoLeaves := by
  have hPairs : Set.Subsingleton (treePairs (fun _ => twoRoot) twoLeaves) := by
    have hHeight : Nat.clog 2 twoLeaves.length = 1 := Nat.clog_eq_one (le_refl 2) (le_refl 2)
    rintro nodes ⟨k, hLt, hMem⟩ nodes' ⟨k', hLt', hMem'⟩
    rw [hHeight, Nat.lt_one_iff] at hLt hLt'
    subst hLt hLt'
    rw [List.mem_singleton.mp hMem, List.mem_singleton.mp hMem']
  have hCommits : CommitsTo (fun _ => twoRoot) twoHeader twoLeaves := by
    refine ⟨twoRoot, ?_, by decide⟩
    rw [MerkleTree.merkleRoot_levelUp _ (le_refl 2)]
    exact MerkleTree.merkleRoot_singleton _ _
  exact (partial_trees_iff (fun _ => twoRoot) .panics (by decide)
      (by decide) rfl hCommits (hPairs.injOn _)).mpr
      (by decide)

/- A number as an identifier. -/
def numberTxid (n : Nat) : Vector UInt8 32 :=
  Vector.ofFn (fun i => UInt8.ofNat (n / 256 ^ i.val % 256))

theorem numberTxid_toList (n : Nat) : (numberTxid n).toList = bytesLE n 32 := by
  unfold numberTxid bytesLE
  rw [Vector.toList_ofFn]
  apply List.ext_getElem
  · simp
  · intro i hLt hLt'
    rw [List.getElem_ofFn, List.getElem_map, List.getElem_range]

/- One leaf more than the walk has room for. -/
def tooMany : List (Vector UInt8 32) := (List.range (2 ^ 31 + 1)).map numberTxid

theorem tooMany_length : tooMany.length = 2 ^ 31 + 1 := by
  unfold tooMany
  rw [List.length_map, List.length_range]

theorem tooMany_nodup : tooMany.Nodup := by
  apply List.Nodup.map_on _ List.nodup_range
  intro n hMem n' hMem' hSame
  rw [List.mem_range] at hMem hMem'
  have hBytes := congrArg Vector.toList hSame
  rw [numberTxid_toList, numberTxid_toList] at hBytes
  have hNumbers := congrArg natOfBytesLE hBytes
  have hRoom : 2 ^ 31 + 1 ≤ 256 ^ 32 := by decide
  rw [natOfBytesLE_bytesLE (by omega), natOfBytesLE_bytesLE (by omega)] at hNumbers
  exact hNumbers

/- Whatever the hash and the header, no tree of them is complete. -/
theorem tooMany_not_complete :
    (tooMany ≠ [] ∧ tooMany.Nodup ∧ (0x80000001 : UInt32).toNat = tooMany.length) ∧
    ¬ ∃ doubleSha256 mode header, Complete doubleSha256 mode header 0x80000001 tooMany := by
  have hSome : tooMany ≠ [] := by
    apply List.ne_nil_of_length_pos
    rw [tooMany_length]
    omega
  have hTotal : (0x80000001 : UInt32).toNat = tooMany.length := by
    rw [tooMany_length]
    rfl
  refine ⟨⟨hSome, tooMany_nodup, hTotal⟩, ?_⟩
  rintro ⟨doubleSha256, mode, header, hComplete⟩
  apply not_complete_of_lt doubleSha256 hSome hTotal _ hComplete
  rw [tooMany_length]
  omega

end Bip37

end OptnWallet
