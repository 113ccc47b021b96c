import OptnWallet.Library.MerkleTree
import OptnWallet.Neutrino.Blocks.Body

/-
  A block hash commits to one list of transactions: whatever bytes are accepted for it hold that
  list, and what is reported are the transactions of it that touch what is watched.

  Main declarations:
    * `Neutrino.commits_of_merkleRoot`
    * `Neutrino.hashedStrings`
    * `Neutrino.relevantOf`
    * `Neutrino.committed_body`
-/

--- Roots

namespace OptnWallet.Neutrino

open ByteFormat MerkleTree StagedUpdate

variable {sha256 : List UInt8 → Vector UInt8 32} {layer : List TxId}

/- A layer is built exactly from nodes without twins. -/
theorem merkleLayer_eq_ok {next : List TxId} (hLayer : merkleLayer sha256 layer = .ok next) :
    NoTwins layer ∧ next = levelUp (hashPair sha256) layer := by
  induction layer using levelUp.induct generalizing next with
  | case1 =>
    cases hLayer
    exact ⟨trivial, rfl⟩
  | case2 a =>
    cases hLayer
    exact ⟨trivial, rfl⟩
  | case3 a b rest ih =>
    unfold merkleLayer at hLayer
    split at hLayer
    · cases hLayer
    · rename_i hTwins
      cases hRest : merkleLayer sha256 rest with
      | error error =>
        rw [hRest] at hLayer
        cases hLayer
      | ok above =>
        rw [hRest] at hLayer
        cases hLayer
        rcases ih hRest with ⟨hNoTwins, rfl⟩
        exact ⟨⟨hTwins, hNoTwins⟩, rfl⟩

/- A root is reached through levels of several nodes, none of which has twins.  By induction over
   the layers left. -/
theorem commits_of_merkleLoop {fuel : Nat} {root : TxId} (hFuel : layer.length ≤ fuel + 1)
    (hLoop : merkleLoop sha256 fuel layer = .ok root) :
    ∃ depth,
    Commits (hashPair sha256) depth layer root ∧
      ∀ k < depth, 1 < (level (hashPair sha256) k layer).length := by
  induction fuel generalizing layer with
  | zero =>
    match layer, hFuel with
    | [], _ => cases hLoop
    | [node], _ =>
      cases hLoop
      exact ⟨0, ⟨rfl, fun k hk => absurd hk (Nat.not_lt_zero k)⟩,
        fun k hk => absurd hk (Nat.not_lt_zero k)⟩
    | _ :: _ :: _, hFuel =>
      simp only [List.length_cons] at hFuel
      omega
  | succ fuel ih =>
    match layer, hFuel with
    | [], _ => cases hLoop
    | [node], _ =>
      cases hLoop
      exact ⟨0, ⟨rfl, fun k hk => absurd hk (Nat.not_lt_zero k)⟩,
        fun k hk => absurd hk (Nat.not_lt_zero k)⟩
    | left :: right :: rest, hFuel =>
      unfold merkleLoop at hLoop
      cases hLayer : merkleLayer sha256 (left :: right :: rest) with
      | error error =>
        rw [hLayer] at hLoop
        cases hLoop
      | ok next =>
        rw [hLayer] at hLoop
        rcases merkleLayer_eq_ok hLayer with ⟨hNoTwins, rfl⟩
        have hShorter : (levelUp (hashPair sha256) (left :: right :: rest)).length ≤ fuel + 1 := by
          rw [levelUp_length]
          simp only [List.length_cons] at hFuel ⊢
          omega
        rcases ih hShorter hLoop with ⟨depth, hCommits, hSeveral⟩
        refine ⟨depth + 1, ⟨hCommits.root_eq, ?_⟩, ?_⟩
        · intro k hk
          cases k with
          | zero => exact hNoTwins
          | succ k => exact hCommits.no_twins k (Nat.lt_of_succ_lt_succ hk)
        · intro k hk
          cases k with
          | zero => simp
          | succ k => exact hSeveral k (Nat.lt_of_succ_lt_succ hk)

theorem commits_of_merkleRoot {root : TxId} (hRoot : merkleRoot sha256 layer = .ok root) :
    ∃ depth,
    Commits (hashPair sha256) depth layer root ∧
      ∀ k < depth, 1 < (level (hashPair sha256) k layer).length :=
  commits_of_merkleLoop (Nat.le_succ _) hRoot

--- Accepted Blocks

def pairString (nodes : TxId × TxId) : List UInt8 := nodes.1.toList ++ nodes.2.toList

theorem length_pairString (nodes : TxId × TxId) : (pairString nodes).length = 64 := by
  unfold pairString
  simp

theorem pairString_injective : Function.Injective pairString := by
  intro nodes nodes' hSame
  unfold pairString at hSame
  have hWidth : nodes.1.toList.length = nodes'.1.toList.length := by simp
  rcases List.append_inj hSame hWidth with ⟨hLeft, hRight⟩
  exact Prod.ext (Vector.toList_inj.mp hLeft) (Vector.toList_inj.mp hRight)

/- What is hashed for a block: its header, its transactions and the pairs of nodes of their tree. -/
def hashedStrings (sha256 : List UInt8 → Vector UInt8 32) (block : List UInt8) : Set (List UInt8) :=
  {bytes | bytes = block.take 80 ∨ ∃ raws,
    BlockHolds block raws ∧
      (bytes ∈ raws ∨ ∃ k,
        1 < (level (hashPair sha256) k (raws.map (doubleSha256 sha256))).length ∧
          ∃ nodes ∈ siblings (level (hashPair sha256) k (raws.map (doubleSha256 sha256))),
        bytes = pairString nodes)}

def ReadTransaction.reported (sha256 : List UInt8 → Vector UInt8 32) (height : UInt32)
    (raw : List UInt8) : ObservedTransaction :=
  { txid := doubleSha256 sha256 raw, raw, blockHeight := some height }

open Classical in
/- The transactions of a list that touch what is watched, in its order.  The first one is the
   coinbase. -/
noncomputable def relevantOf (sha256 : List UInt8 → Vector UInt8 32) (height : UInt32)
    (watched : Watched) : List (List UInt8) → List ObservedTransaction
  | [] => []
  | coinbase :: rest => (([coinbase].filter fun raw => Touches watched true raw) ++
        rest.filter fun raw => Touches watched false raw).map
      (ReadTransaction.reported sha256 height)

variable {watched : Watched}

theorem filter_touches {isCoinbase : Bool} (keep : List UInt8 → Bool)
    (hKeep : ∀ raw, keep raw = true ↔ Touches watched isCoinbase raw) {reads : List ReadTransaction}
    (hSound : ∀ read ∈ reads, read.Sound watched isCoinbase) :
    (reads.filter ReadTransaction.touches).map ReadTransaction.raw =
      (reads.map ReadTransaction.raw).filter keep := by
  rw [List.filter_map]
  congr 1
  apply List.filter_congr
  intro read hMem
  rw [Bool.eq_iff_iff, (hSound read hMem).touches_iff]
  exact (hKeep read.raw).symm

/- What is reported of the transactions that were read. -/
theorem relevantOf_eq (sha256 : List UInt8 → Vector UInt8 32) (height : UInt32)
    {coinbase : ReadTransaction} {rest : List ReadTransaction}
    (hCoinbase : coinbase.Sound watched true) (hRest : ∀ read ∈ rest, read.Sound watched false) :
    ((coinbase :: rest).filter ReadTransaction.touches).map (ReadTransaction.observed sha256 height)
        = relevantOf sha256 height watched ((coinbase :: rest).map ReadTransaction.raw) := by
  classical
  have hObserved :
      ReadTransaction.observed sha256 height =
        ReadTransaction.reported sha256 height ∘ ReadTransaction.raw := rfl
  have hFirst :=
    filter_touches (fun raw => Touches watched true raw) (fun raw => decide_eq_true_iff)
      (List.forall_mem_singleton.mpr hCoinbase)
  have hOthers :=
    filter_touches (fun raw => Touches watched false raw) (fun raw => decide_eq_true_iff) hRest
  rw [hObserved, ← List.map_map, ← List.singleton_append, List.filter_append, List.map_append,
    hFirst, hOthers]
  rfl

/- What an accepted block says of its bytes. -/
structure Accepted (sha256 : List UInt8 → Vector UInt8 32) (block : List UInt8)
    (expectedHash : TxId) (height : UInt32) (watched : Watched)
    (relevant : List ObservedTransaction) (raws : List (List UInt8)) : Prop where
  holds : BlockHolds block raws
  header_hash : doubleSha256 sha256 (block.take 80) = expectedHash
  root :
    ∃ root,
    merkleRoot sha256 (raws.map (doubleSha256 sha256)) = .ok root ∧
      root.toList = (block.drop 36).take 32
  relevant_eq : relevant = relevantOf sha256 height watched raws

theorem accepted_of_parseRelevantBlock {block : List UInt8} {expectedHash : TxId} {height : UInt32}
    {relevant : List ObservedTransaction}
    (hParse : parseRelevantBlock sha256 block expectedHash height watched = .ok relevant) :
    ∃ raws, Accepted sha256 block expectedHash height watched relevant raws := by
  unfold parseRelevantBlock at hParse
  split at hParse
  · cases hParse
  · rename_i hLong
    split at hParse
    · cases hParse
    · rename_i hHash
      split at hParse
      · cases hParse
      · rename_i reads stop hReads
        split at hParse
        · cases hParse
        · rename_i hStop
          rw [not_not] at hHash hStop
          have hStart : 80 ≤ block.length := by omega
          rcases readsOnly_readTransactions watched block 80 reads stop hStart hReads with
            ⟨piece, hPrefix, ⟨coinbase, rest, count, rfl, hCoinbase, hRest, hCount, hBytes⟩, hPiece⟩
          rcases bind_eq_ok_iff.mp hParse with ⟨root, hRoot, hFound⟩
          split at hFound
          · cases hFound
          · rename_i hMeets
            rw [not_not] at hMeets
            cases hFound
            refine ⟨(coinbase :: rest).map ReadTransaction.raw,
              ⟨block.take 80, count, ?_, ?_, ?_, ?_⟩, hHash, ⟨root, ?_, hMeets⟩, ?_⟩
            · have hWhole : piece = block.drop 80 := by
                apply hPrefix.eq_of_length
                rw [List.length_drop]
                omega
              rw [← hBytes, hWhole, List.take_append_drop]
            · rw [List.length_take]
              omega
            · rw [List.length_map]
              exact hCount
            · rw [List.forall_mem_map]
              intro read hMem
              cases hMem with
              | head => exact hCoinbase.spells
              | tail _ hMem => exact (hRest read hMem).spells
            · rw [List.map_map]
              exact hRoot
            · exact relevantOf_eq sha256 height hCoinbase hRest

--- One Hash, One List

/- No transaction of the block takes 64 bytes. -/
def NoPairLength (block : List UInt8) : Prop :=
  ∀ raws, BlockHolds block raws → ∀ raw ∈ raws, raw.length ≠ 64

section Committed

variable {sha256 : List UInt8 → Vector UInt8 32} {block block' : List UInt8}
variable {raws raws' : List (List UInt8)}

/- Below a level of one node nothing is hashed that is not a pair of the block's own tree. -/
theorem mem_hashedStrings_of_pair (hHolds : BlockHolds block raws) {depth : Nat}
    (hSeveral : ∀ k < depth,
      1 < (level (hashPair sha256) k (raws.map (doubleSha256 sha256))).length) {nodes : TxId × TxId}
    (hNodes : nodes ∈ hashedPairs (hashPair sha256) depth (raws.map (doubleSha256 sha256))) :
    pairString nodes ∈ hashedStrings sha256 block := by
  rcases hNodes with ⟨k, hk, hMem⟩
  right
  exact ⟨raws, hHolds, Or.inr ⟨k, hSeveral k hk, nodes, hMem, rfl⟩⟩

theorem mem_hashedStrings_of_raw (hHolds : BlockHolds block raws) {raw : List UInt8}
    (hRaw : raw ∈ raws) : raw ∈ hashedStrings sha256 block := by
  right
  exact ⟨raws, hHolds, Or.inl hRaw⟩

variable (hFree : Set.InjOn (doubleSha256 sha256) (hashedStrings sha256 block ∪ hashedStrings sha256 block'))
variable (hLength : NoPairLength block)
include hFree hLength

/- A transaction of another length is not the hash of a pair. -/
theorem pair_ne_leaf (hHolds : BlockHolds block raws) (hHolds' : BlockHolds block' raws')
    {depth : Nat}
    (hSeveral : ∀ k < depth,
        1 < (level (hashPair sha256) k (raws'.map (doubleSha256 sha256))).length) :
    ∀ leaf ∈ raws.map (doubleSha256 sha256),
    ∀ nodes ∈ hashedPairs (hashPair sha256) depth (raws'.map (doubleSha256 sha256)),
      pairUp (hashPair sha256) nodes ≠ leaf := by
  intro leaf hLeaf nodes hNodes hSame
  rcases List.mem_map.mp hLeaf with ⟨raw, hRaw, rfl⟩
  have hString : pairString nodes = raw := by
    apply hFree _ _ hSame
    · exact Or.inr (mem_hashedStrings_of_pair hHolds' hSeveral hNodes)
    · exact Or.inl (mem_hashedStrings_of_raw hHolds hRaw)
  apply hLength raws hHolds raw hRaw
  rw [← hString]
  exact length_pairString nodes

/- Two blocks under one root hold one list. -/
theorem eq_of_merkleRoot (hLength' : NoPairLength block') (hHolds : BlockHolds block raws)
    (hHolds' : BlockHolds block' raws') {root : TxId}
    (hRoot : merkleRoot sha256 (raws.map (doubleSha256 sha256)) = .ok root)
    (hRoot' : merkleRoot sha256 (raws'.map (doubleSha256 sha256)) = .ok root) : raws = raws' := by
  rcases commits_of_merkleRoot hRoot with ⟨depth, hCommits, hSeveral⟩
  rcases commits_of_merkleRoot hRoot' with ⟨depth', hCommits', hSeveral'⟩
  have hInjOn :
      Set.InjOn (pairUp (hashPair sha256))
        (hashedPairs (hashPair sha256) depth (raws.map (doubleSha256 sha256)) ∪ hashedPairs
          (hashPair sha256) depth' (raws'.map (doubleSha256 sha256))) := by
    intro nodes hNodes nodes' hNodes' hSame
    apply pairString_injective
    apply hFree _ _ hSame
    · exact hNodes.imp (mem_hashedStrings_of_pair hHolds hSeveral)
        (mem_hashedStrings_of_pair hHolds' hSeveral')
    · exact hNodes'.imp (mem_hashedStrings_of_pair hHolds hSeveral)
        (mem_hashedStrings_of_pair hHolds' hSeveral')
  have hFree' :
      Set.InjOn (doubleSha256 sha256)
        (hashedStrings sha256 block' ∪ hashedStrings sha256 block) := by
    rw [Set.union_comm]
    exact hFree
  have hLeaves : raws.map (doubleSha256 sha256) = raws'.map (doubleSha256 sha256) :=
    hCommits.unique hCommits' hInjOn (pair_ne_leaf hFree hLength hHolds hHolds' hSeveral')
      (pair_ne_leaf hFree' hLength' hHolds' hHolds hSeveral)
  apply eq_of_map_eq_of_injOn _ hLeaves
  apply hFree.mono
  intro raw hMem
  exact hMem.imp (mem_hashedStrings_of_raw hHolds) (mem_hashedStrings_of_raw hHolds')

end Committed

/-
  A downloaded block is the one its hash commits to: any two accepted for one hash hold the same
  transactions, what is reported of each are those that touch what is watched, and none holds the
  list of another with some of its transactions repeated behind it.
-/
theorem committed_body (sha256 : List UInt8 → Vector UInt8 32) (expectedHash : TxId)
    (block block' : List UInt8) (height height' : UInt32) (watched watched' : Watched)
    (relevant relevant' : List ObservedTransaction)
    (hFree :
      Set.InjOn (doubleSha256 sha256) (hashedStrings sha256 block ∪ hashedStrings sha256 block'))
    (hLength : NoPairLength block) (hLength' : NoPairLength block')
    (hAccepted : parseRelevantBlock sha256 block expectedHash height watched = .ok relevant)
    (hAccepted' : parseRelevantBlock sha256 block' expectedHash height' watched' = .ok relevant') :
    ∃ raws,
    (∀ found, BlockHolds block found ↔ found = raws) ∧
      (∀ found, BlockHolds block' found ↔ found = raws) ∧
      relevant = relevantOf sha256 height watched raws ∧
      relevant' = relevantOf sha256 height' watched' raws ∧
      ∀ copies, copies ≠ [] → copies <:+ raws → ¬ BlockHolds block' (raws ++ copies) := by
  rcases accepted_of_parseRelevantBlock hAccepted with
    ⟨raws, hHolds, hHash, ⟨root, hRoot, hField⟩, hRelevant⟩
  rcases accepted_of_parseRelevantBlock hAccepted' with
    ⟨raws', hHolds', hHash', ⟨root', hRoot', hField'⟩, hRelevant'⟩
  have hHeader : block.take 80 = block'.take 80 := by
    apply hFree _ _ (hHash.trans hHash'.symm)
    · exact Or.inl (Or.inl rfl)
    · exact Or.inr (Or.inl rfl)
  have hRootField :
      ∀ bytes : List UInt8, (bytes.drop 36).take 32 = ((bytes.take 80).drop 36).take 32 := by
    intro bytes
    rw [List.drop_take, List.take_take]
    congr 1
  have hRoots : root = root' := by
    rw [← Vector.toList_inj, hField, hField', hRootField block, hRootField block', hHeader]
  rw [← hRoots] at hRoot'
  have hSame := eq_of_merkleRoot hFree hLength hLength' hHolds hHolds' hRoot hRoot'
  rw [← hSame] at hHolds' hRelevant'
  refine ⟨raws, ?_, ?_, hRelevant, hRelevant', ?_⟩
  · intro found
    constructor
    · intro hFound
      exact hFound.unique hHolds
    · rintro rfl
      exact hHolds
  · intro found
    constructor
    · intro hFound
      exact hFound.unique hHolds'
    · rintro rfl
      exact hHolds'
  · intro copies hCopies _ hRepeated
    have hEq := hRepeated.unique hHolds'
    exact hCopies (List.append_right_eq_self.mp hEq)

--- One Transaction, Counted at Two Widths

/- A digest by the number it displays. -/
def digestOf (displayed : Nat) : Vector UInt8 32 :=
  ⟨(bytesLE displayed 32).toArray, by
    rw [List.size_toArray, length_bytesLE]⟩

def minedTransaction : RawTransaction :=
  { version := 1
    inputs := []
    outputs := [{ value := 5000000000, field := [0x51] }]
    locktime := 0 }

def minedRaw : List UInt8 := minedTransaction.bytes

def minedTxid : TxId := digestOf 0x0e02fa073563d77042c685a2db088abcaa677f0ee6ee42f304935a47f5b97327

def minedHeader : List UInt8 :=
  bytesLE 1 4 ++ List.replicate 32 0 ++ minedTxid.toList ++ List.replicate 12 0

def minedHash : TxId := digestOf 0x1a9e1672bc51924fde50d8e526753e2436fd09f4d13e9905c24da743e21d2560

/- The digests of the header and of the transaction, and those of these digests. -/
def minedSha256 (bytes : List UInt8) : Vector UInt8 32 :=
  let header := digestOf 0xa2b7d032f7e4b0f74097b756f2f8d0785ae31977e95b1b4fe002e96b971b9a43
  let transaction := digestOf 0x03e3669704609041f4e328ae1b7213e096a3fc055e2ba35f9ca1f604f66a437b
  if bytes = minedHeader then header
  else if bytes = header.toList then minedHash
  else if bytes = minedRaw then transaction
  else if bytes = transaction.toList then minedTxid
  else Vector.replicate 32 0

def minedBlock (count : List UInt8) : List UInt8 := minedHeader ++ (count ++ [minedRaw].flatten)

variable {count : List UInt8}

/- Both counts are counts of one. -/
theorem blockHolds_mined (hCount : countLayout 1 count) :
    BlockHolds (minedBlock count) [minedRaw] := by
  refine ⟨minedHeader, count, rfl, by decide, hCount, ?_⟩
  rw [List.forall_mem_singleton]
  refine ⟨minedTransaction, transactionLayout_bytes ?_⟩
  constructor
  · decide
  · exact List.forall_mem_nil _
  · decide
  · intro output hOutput
    rcases List.mem_singleton.mp hOutput with rfl
    unfold RawOutput.InRange
    decide

/- Above one node no pair is hashed. -/
theorem hashedStrings_single {block raw bytes : List UInt8} (hHolds : BlockHolds block [raw])
    (hMem : bytes ∈ hashedStrings sha256 block) : bytes = block.take 80 ∨ bytes = raw := by
  rcases hMem with hHeader | ⟨raws, hRaws, hMem⟩
  · exact Or.inl hHeader
  · right
    rw [hRaws.unique hHolds] at hMem
    rcases hMem with hRaw | ⟨k, hSeveral, -⟩
    · exact List.mem_singleton.mp hRaw
    · have hOne :
          ∀ k, (level (hashPair sha256) k ([raw].map (doubleSha256 sha256))).length = 1 := by
        intro k
        induction k with
        | zero => rfl
        | succ k ih => rw [level_succ', levelUp_length, ih]
      rw [hOne k] at hSeveral
      exact absurd hSeveral (Nat.lt_irrefl 1)

theorem countLayout_one : countLayout 1 [1] := ⟨1, ⟨1, [], rfl, rfl, rfl, rfl⟩, rfl⟩

theorem countLayout_wide_one : countLayout 1 [0xfd, 1, 0] :=
  ⟨1, ⟨0xfd, [1, 0], rfl, rfl, rfl, rfl⟩, rfl⟩

theorem noPairLength_mined (hCount : countLayout 1 count) : NoPairLength (minedBlock count) := by
  intro raws hRaws
  rw [hRaws.unique (blockHolds_mined hCount), List.forall_mem_singleton]
  decide

theorem injOn_mined {count' : List UInt8} (hCount : countLayout 1 count)
    (hCount' : countLayout 1 count') :
    Set.InjOn (doubleSha256 minedSha256)
      (hashedStrings minedSha256 (minedBlock count) ∪ hashedStrings minedSha256
        (minedBlock count')) := by
  have hApart : doubleSha256 minedSha256 minedHeader ≠ doubleSha256 minedSha256 minedRaw := by
    decide +kernel
  have hHeader : ∀ count, (minedBlock count).take 80 = minedHeader := by
    intro count
    exact List.take_left' (by decide)
  have hEither :
      ∀ bytes ∈
        hashedStrings minedSha256 (minedBlock count) ∪ hashedStrings minedSha256
          (minedBlock count'), bytes = minedHeader ∨ bytes = minedRaw := by
    intro bytes hMem
    rcases hMem with hMem | hMem
    · rw [← hHeader count]
      exact hashedStrings_single (blockHolds_mined hCount) hMem
    · rw [← hHeader count']
      exact hashedStrings_single (blockHolds_mined hCount') hMem
  intro bytes hBytes bytes' hBytes' hSame
  rcases hEither bytes hBytes with rfl | rfl
  · rcases hEither bytes' hBytes' with rfl | rfl
    · rfl
    · exact absurd hSame hApart
  · rcases hEither bytes' hBytes' with rfl | rfl
    · exact absurd hSame.symm hApart
    · rfl

theorem committed_body_mined :
    ∃ raws,
      (∀ found, BlockHolds (minedBlock [1]) found ↔ found = raws) ∧
        (∀ found, BlockHolds (minedBlock [0xfd, 1, 0]) found ↔ found = raws) ∧
          [] = relevantOf minedSha256 1 { scripts := [], outpoints := [] } raws ∧
            [{ txid := minedTxid, raw := minedRaw, blockHeight := some 2 }] =
                relevantOf minedSha256 2 { scripts := [[0x51]], outpoints := [] } raws ∧
              ∀ copies,
                copies ≠ [] →
                  copies <:+ raws → ¬ BlockHolds (minedBlock [0xfd, 1, 0]) (raws ++ copies) :=
  committed_body minedSha256 minedHash (minedBlock [1]) (minedBlock [0xfd, 1, 0]) 1 2
    { scripts := [], outpoints := [] }
    { scripts := [[0x51]], outpoints := [] } [] _
    (injOn_mined countLayout_one countLayout_wide_one)
    (noPairLength_mined countLayout_one)
    (noPairLength_mined countLayout_wide_one)
    (by decide +kernel) (by decide +kernel)

end OptnWallet.Neutrino
