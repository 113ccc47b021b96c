import OptnWallet.Core.Rpa.Payment
import OptnWallet.Fusion.Tx
import OptnWallet.Library.UniqueReading

/-
  The hash of everything a server must have told every player alike, over the rounds of a session.
  Equal hashes have equal sessions, so players that accepted one hash sign for one transaction.

  Main declarations:
    * `Fusion.listhash`
    * `Fusion.sessionHash` and `Fusion.acceptHash`
    * `Fusion.listBytes_injective`
    * `Fusion.session_hash_binds`
-/

--- Hashes

namespace OptnWallet.Fusion

variable (sha256 : List UInt8 → Vector UInt8 32)

/- An item behind its length, which is cut to 32 bits. -/
def itemBytes (item : List UInt8) : List UInt8 := bytesBE (UInt32.ofNat item.length).toNat 4 ++ item

def listBytes (items : List (List UInt8)) : List UInt8 := items.flatMap itemBytes

def listhash (items : List (List UInt8)) : Vector UInt8 32 := sha256 (listBytes items)

def version : List UInt8 := [0x61, 0x6c, 0x70, 0x68, 0x61, 0x31, 0x33]

/- "Cash Fusion Session" -/
def sessionTag : List UInt8 :=
  [0x43, 0x61, 0x73, 0x68, 0x20, 0x46, 0x75, 0x73, 0x69, 0x6f, 0x6e, 0x20, 0x53, 0x65, 0x73, 0x73,
    0x69, 0x6f, 0x6e]

/- "Cash Fusion Round" -/
def roundTag : List UInt8 :=
  [0x43, 0x61, 0x73, 0x68, 0x20, 0x46, 0x75, 0x73, 0x69, 0x6f, 0x6e, 0x20, 0x52, 0x6f, 0x75, 0x6e,
    0x64]

section

variable (tier : UInt64) (covertDomain : List UInt8) (covertPort : UInt32) (covertSsl : Bool)
  (beginTime : UInt64)

def initialItems : List (List UInt8) :=
  [sessionTag, version, bytesBE tier.toNat 8, covertDomain, bytesBE covertPort.toNat 4,
    if covertSsl then [0x01] else [0x00], bytesBE beginTime.toNat 8]

def calcInitialHash : Vector UInt8 32 :=
  listhash sha256 (initialItems tier covertDomain covertPort covertSsl beginTime)

end

variable (lastHash : Vector UInt8 32)

section

variable (roundPubkey : List UInt8) (roundTime : UInt64)
  (allCommitments allComponents : List (List UInt8))

def roundItems : List (List UInt8) :=
  [roundTag, lastHash.toList, roundPubkey, bytesBE roundTime.toNat 8,
    (listhash sha256 allCommitments).toList, (listhash sha256 allComponents).toList]

def calcRoundHash : Vector UInt8 32 :=
  listhash sha256 (roundItems sha256 lastHash roundPubkey roundTime allCommitments allComponents)

end

--- Sessions

/- The bytes of a field of a message.  A frame says its length in four bytes, and no field is longer
   than its frame. -/
structure Received where
  bytes : List UInt8
  length_lt : bytes.length < 2 ^ 32
deriving DecidableEq

theorem Received.bytes_injective : Function.Injective Received.bytes := by
  intro first second hSame
  cases first
  cases second
  cases hSame
  rfl

structure FusionBegin where
  tier : UInt64
  covertDomain : Received
  covertPort : UInt32
  covertSsl : Bool
  serverTime : UInt64
deriving DecidableEq

/- The key and the time of a round, and what its players shared. -/
structure Round where
  roundPubkey : Received
  serverTime : UInt64
  commitments : List Received
  components : List Received
deriving DecidableEq

def Round.allCommitments (round : Round) : List (List UInt8) := round.commitments.map Received.bytes

def Round.allComponents (round : Round) : List (List UInt8) := round.components.map Received.bytes

def FusionBegin.bytes (start : FusionBegin) : List UInt8 :=
  listBytes
    (initialItems start.tier start.covertDomain.bytes start.covertPort start.covertSsl
      start.serverTime)

def Round.bytes (lastHash : Vector UInt8 32) (round : Round) : List UInt8 :=
  listBytes
    (roundItems sha256 lastHash round.roundPubkey.bytes round.serverTime round.allCommitments
      round.allComponents)

/- The hash after the last of the rounds, which every round chains to the one before. -/
def sessionHash (start : FusionBegin) (rounds : List Round) : Vector UInt8 32 :=
  rounds.foldl
    (fun last round =>
      calcRoundHash sha256 last round.roundPubkey.bytes round.serverTime round.allCommitments
        round.allComponents)
    (calcInitialHash sha256 start.tier start.covertDomain.bytes start.covertPort start.covertSsl
      start.serverTime)

/- A declared hash must be the own one, and only a round that skips its signatures may leave it out.
   -/
def acceptHash (round : Round) (declared : Option (List UInt8)) (skipSignatures : Bool) :
    Except String (Vector UInt8 32) :=
  let own :=
    calcRoundHash sha256 lastHash round.roundPubkey.bytes round.serverTime round.allCommitments
      round.allComponents
  match declared with
  | some hash =>
    if hash ≠ own.toList then .error "session hash mismatch — server told players different things"
    else .ok own
  | none =>
    if skipSignatures then .ok own
    else .error "server omitted the CashFusion session hash"

theorem sessionHash_eq_chain (start : FusionBegin) (rounds : List Round) :
    sessionHash sha256 start rounds =
      HashChain.chain sha256 FusionBegin.bytes (Round.bytes sha256) start rounds := rfl

/- What a session hashes: its records, and the two lists of each round. -/
inductive Hashed (start : FusionBegin) (rounds : List Round) : List UInt8 → Prop where
  | record {bytes : List UInt8}
      (hRecord : HashChain.Hashed sha256 FusionBegin.bytes (Round.bytes sha256) start rounds bytes)
          : 
      Hashed start rounds bytes
  | commitments {round : Round} (hMem : round ∈ rounds) :
      Hashed start rounds (listBytes round.allCommitments)
  | components {round : Round} (hMem : round ∈ rounds) :
      Hashed start rounds (listBytes round.allComponents)

/- No two of the strings that two sessions hash collide. -/
def CollisionFree (start start' : FusionBegin) (rounds rounds' : List Round) : Prop :=
  ∀ x y, Hashed sha256 start rounds x → Hashed sha256 start' rounds' y → sha256 x = sha256 y → x = y

--- Lists Of Items

theorem length_bytesBE (value count : Nat) : (bytesBE value count).length = count := by
  unfold bytesBE
  rw [List.length_reverse, length_bytesLE]

theorem bytesBE_injective {value value' count : Nat} (hLt : value < 256 ^ count)
    (hLt' : value' < 256 ^ count) (hSame : bytesBE value count = bytesBE value' count) :
    value = value' := by
  rw [← natOfBytesBE_bytesBE hLt, hSame, natOfBytesBE_bytesBE hLt']

/- An item of less than 2³² bytes tells where it ends. -/
theorem selfDelimiting_itemBytes :
    SelfDelimiting (fun item : List UInt8 => item.length < 2 ^ 32) itemBytes := by
  have hLength {item : List UInt8} (hItem : item.length < 2 ^ 32) :
      (UInt32.ofNat item.length).toNat = item.length :=
    UInt32.toNat_ofNat_of_lt' hItem
  constructor
  · intro item _ hNil
    have hZero := congrArg List.length hNil
    unfold itemBytes at hZero
    rw [List.length_append, length_bytesBE, List.length_nil] at hZero
    omega
  · intro item item' hItem hItem' tail tail' hSame
    unfold itemBytes at hSame
    rw [List.append_assoc, List.append_assoc] at hSame
    have hParts :=
      List.append_inj hSame (by
        rw [length_bytesBE, length_bytesBE])
    have hCount := bytesBE_injective (UInt32.toNat_lt _) (UInt32.toNat_lt _) hParts.1
    rw [hLength hItem, hLength hItem'] at hCount
    exact (List.append_inj hParts.2 hCount).1

/- Item boundaries and the order of the items are bound. -/
theorem listBytes_injective {items items' : List (List UInt8)}
    (hItems : ∀ item ∈ items, item.length < 2 ^ 32)
    (hItems' : ∀ item ∈ items', item.length < 2 ^ 32) (hSame : listBytes items = listBytes items') :
    items = items' := selfDelimiting_itemBytes.flatMap_injective hItems hItems' hSame

--- Records

theorem initialItems_short (start : FusionBegin) :
    ∀ item ∈ initialItems start.tier start.covertDomain.bytes start.covertPort start.covertSsl
        start.serverTime, item.length < 2 ^ 32 := by
  intro item hMem
  unfold initialItems at hMem
  simp only [List.mem_cons, List.not_mem_nil, or_false] at hMem
  rcases hMem with hItem | hItem | hItem | hItem | hItem | hItem | hItem
  · rw [hItem]
    decide
  · rw [hItem]
    decide
  · rw [hItem, length_bytesBE]
    decide
  · rw [hItem]
    exact start.covertDomain.length_lt
  · rw [hItem, length_bytesBE]
    decide
  · rw [hItem]
    cases start.covertSsl
    · decide
    · decide
  · rw [hItem, length_bytesBE]
    decide

theorem roundItems_short (round : Round) :
    ∀ item ∈
      roundItems sha256 lastHash round.roundPubkey.bytes round.serverTime round.allCommitments
        round.allComponents, item.length < 2 ^ 32 := by
  intro item hMem
  unfold roundItems at hMem
  simp only [List.mem_cons, List.not_mem_nil, or_false] at hMem
  rcases hMem with hItem | hItem | hItem | hItem | hItem | hItem
  · rw [hItem]
    decide
  · rw [hItem, Vector.length_toList]
    decide
  · rw [hItem]
    exact round.roundPubkey.length_lt
  · rw [hItem, length_bytesBE]
    decide
  · rw [hItem, Vector.length_toList]
    decide
  · rw [hItem, Vector.length_toList]
    decide

theorem map_bytes_short (fields : List Received) :
    ∀ item ∈ fields.map Received.bytes, item.length < 2 ^ 32 := by
  intro item hMem
  rcases List.mem_map.mp hMem with ⟨field, -, hItem⟩
  rw [← hItem]
  exact field.length_lt

theorem uint64_of_bytesBE {word word' : UInt64}
    (hSame : bytesBE word.toNat 8 = bytesBE word'.toNat 8) : word = word' :=
  UInt64.toNat_inj.mp (bytesBE_injective word.toNat_lt word'.toNat_lt hSame)

theorem uint32_of_bytesBE {word word' : UInt32}
    (hSame : bytesBE word.toNat 4 = bytesBE word'.toNat 4) : word = word' :=
  UInt32.toNat_inj.mp (bytesBE_injective word.toNat_lt word'.toNat_lt hSame)

/- The initial record has every value of the start. -/
theorem FusionBegin.bytes_injective {start start' : FusionBegin}
    (hSame : start.bytes = start'.bytes) : start = start' := by
  have hItems := listBytes_injective (initialItems_short start) (initialItems_short start') hSame
  unfold initialItems at hItems
  simp only [List.cons.injEq, and_true, true_and] at hItems
  rcases hItems with ⟨hTier, hDomain, hPort, hSsl, hTime⟩
  have hSslSame : start.covertSsl = start'.covertSsl := by
    revert hSsl
    cases start.covertSsl <;> cases start'.covertSsl <;> decide
  cases start
  cases start'
  dsimp only at hTier hDomain hPort hTime hSslSame
  rw [uint64_of_bytesBE hTier, Received.bytes_injective hDomain, uint32_of_bytesBE hPort, hSslSame,
    uint64_of_bytesBE hTime]

/- The record of a round has every value of it, where its lists do not collide. -/
theorem Round.bytes_injective {last last' : Vector UInt8 32} {round round' : Round}
    (hCommitments :
      listhash sha256 round.allCommitments = listhash sha256 round'.allCommitments →
        listBytes round.allCommitments = listBytes round'.allCommitments)
    (hComponents :
      listhash sha256 round.allComponents = listhash sha256 round'.allComponents →
        listBytes round.allComponents = listBytes round'.allComponents)
    (hSame : round.bytes sha256 last = round'.bytes sha256 last') :
    last = last' ∧ round = round' := by
  have hItems :=
    listBytes_injective (roundItems_short sha256 last round) (roundItems_short sha256 last' round')
      hSame
  unfold roundItems at hItems
  simp only [List.cons.injEq, and_true, true_and] at hItems
  rcases hItems with ⟨hLast, hKey, hTime, hFirst, hSecond⟩
  have hLists {fields fields' : List Received}
      (hBytes : listBytes (fields.map Received.bytes) = listBytes (fields'.map Received.bytes)) :
      fields = fields' :=
    Received.bytes_injective.list_map
      (listBytes_injective (map_bytes_short fields) (map_bytes_short fields') hBytes)
  refine ⟨Vector.toList_inj.mp hLast, ?_⟩
  have hMade := hLists (hCommitments (Vector.toList_inj.mp hFirst))
  have hShared := hLists (hComponents (Vector.toList_inj.mp hSecond))
  cases round
  cases round'
  dsimp only at hKey hTime hMade hShared
  rw [Received.bytes_injective hKey, uint64_of_bytesBE hTime, hMade, hShared]

/- The first record is not one of a round. -/
theorem bytes_apart (start : FusionBegin) (last : Vector UInt8 32) (round : Round) :
    start.bytes ≠ round.bytes sha256 last := by
  intro hSame
  have hItems :=
    listBytes_injective (initialItems_short start) (roundItems_short sha256 last round) hSame
  unfold initialItems roundItems at hItems
  have hTag := (List.cons.inj hItems).1
  revert hTag
  decide

variable {sha256}

/- Sessions of one hash are one session. -/
theorem eq_of_sessionHash_eq {start start' : FusionBegin} {rounds rounds' : List Round}
    (hFree : CollisionFree sha256 start start' rounds rounds')
    (hSame : sessionHash sha256 start rounds = sessionHash sha256 start' rounds') :
    start = start' ∧ rounds = rounds' := by
  rw [sessionHash_eq_chain, sessionHash_eq_chain] at hSame
  apply HashChain.chain_injective FusionBegin.bytes_injective rounds ?_ ?_ ?_ hSame
  · intro x y hX hY
    exact hFree x y (.record hX) (.record hY)
  · intro round hMem round' hMem' last last' hRecord
    exact Round.bytes_injective sha256 (hFree _ _ (.commitments hMem) (.commitments hMem'))
      (hFree _ _ (.components hMem) (.components hMem')) hRecord
  · intro last round
    exact ⟨bytes_apart sha256 start last round, bytes_apart sha256 start' last round⟩

--- Players

theorem acceptHash_declared {last hash : Vector UInt8 32} {round : Round} {declared : List UInt8}
    {skipSignatures : Bool}
    (hAccept : acceptHash sha256 last round (some declared) skipSignatures = .ok hash) :
    declared = hash.toList ∧
    calcRoundHash sha256 last round.roundPubkey.bytes round.serverTime round.allCommitments
        round.allComponents = hash := by
  unfold acceptHash at hAccept
  dsimp only at hAccept
  split at hAccept
  · cases hAccept
  · rename_i hDeclared
    have hHash := Except.ok.inj hAccept
    rw [hHash] at hDeclared
    exact ⟨not_not.mp hDeclared, hHash⟩

/-
  Where the hash has no collision among what two players hashed, equal session hashes have equal
  starts and equal rounds.  Players that both accepted a declared hash in their last round rebuild
  one transaction, and have the same hash to sign for every input of it.
-/
theorem session_hash_binds {start start' : FusionBegin} {rounds rounds' : List Round}
    (hFree : CollisionFree sha256 start start' rounds rounds') :
    (sessionHash sha256 start rounds = sessionHash sha256 start' rounds' →
        start = start' ∧ rounds = rounds') ∧
    ∀ done done' last last' declared skip skip' hash hash',
      rounds = done ++ [last] → rounds' = done' ++ [last'] →
        acceptHash sha256 (sessionHash sha256 start done) last (some declared) skip = .ok hash →
        acceptHash sha256 (sessionHash sha256 start' done') last' (some declared) skip' =
          .ok hash' →
        hash = hash' ∧ ∀ (components : Wire Component) ripemd160,
            FusionTx.fromComponents components last.allComponents hash =
                FusionTx.fromComponents components last'.allComponents hash' ∧
              ∀ tx tx' i,
                FusionTx.fromComponents components last.allComponents hash = .ok tx →
                  FusionTx.fromComponents components last'.allComponents hash' = .ok tx' →
                  FusionTx.sighash sha256 ripemd160 tx i =
                    FusionTx.sighash sha256 ripemd160 tx' i := by
  constructor
  · exact eq_of_sessionHash_eq hFree
  · intro done done' last last' declared skip skip' hash hash' hRounds hRounds' hAccept hAccept'
    rcases acceptHash_declared hAccept with ⟨hDeclared, hHash⟩
    rcases acceptHash_declared hAccept' with ⟨hDeclared', hHash'⟩
    have hSameHash : hash = hash' := Vector.toList_inj.mp (hDeclared.symm.trans hDeclared')
    have hChain {start : FusionBegin} {done : List Round} {last : Round} :
        sessionHash sha256 start (done ++ [last]) =
          calcRoundHash sha256 (sessionHash sha256 start done) last.roundPubkey.bytes
            last.serverTime last.allCommitments last.allComponents := by
      unfold sessionHash
      rw [List.foldl_append, List.foldl_cons, List.foldl_nil]
    have hSame : sessionHash sha256 start rounds = sessionHash sha256 start' rounds' := by
      rw [hRounds, hRounds', hChain, hChain, hHash, hHash', hSameHash]
    have hEq := (eq_of_sessionHash_eq hFree hSame).2
    rw [hRounds, hRounds'] at hEq
    have hLast : last = last' := (List.cons.inj (List.append_inj' hEq rfl).2).1
    refine ⟨hSameHash, ?_⟩
    intro components ripemd160
    rw [hLast, hSameHash]
    refine ⟨rfl, ?_⟩
    intro tx tx' i hTx hTx'
    rw [hTx] at hTx'
    rw [Except.ok.inj hTx']

--- Samples

def sampleBegin : FusionBegin where
  tier := 10000
  covertDomain :=
    { bytes := [99, 46, 101, 120, 97, 109, 112, 108, 101]
      length_lt := by decide }
  covertPort := 8789
  covertSsl := false
  serverTime := 1700000000

def sampleRound : Round where
  roundPubkey :=
    { bytes := 2 :: List.replicate 32 17
      length_lt := by decide }
  serverTime := 1700000030
  commitments :=
    [{ bytes := [1, 2, 3]
       length_lt := by decide }]
  components :=
    [{ bytes := [4, 5]
       length_lt := by decide },
      { bytes := [6]
        length_lt := by decide }]

/- The digest of the record of the round. -/
def sampleHash : Vector UInt8 32 :=
  Rpa.scalarBytes 0x39bdad9930e486a0675e3e5abab7a68d0e387304c586d9b5317e823f70948b90

/- The digests of what the session of one round hashes. -/
def sampleSha256 (bytes : List UInt8) : Vector UInt8 32 :=
  if bytes = sampleBegin.bytes then
    Rpa.scalarBytes 0xc76d7c249ec132d87b3500a03a33a680d3a5437c0de0ca08a2e64f34bfb8ad14
  else if bytes = listBytes sampleRound.allCommitments then
    Rpa.scalarBytes 0x24516634c970e5acce703047db369d185eeeca608a781d79a7cb605115505195
  else if bytes = listBytes sampleRound.allComponents then
    Rpa.scalarBytes 0x405bd38b4900679032e2459430d4c116f096e11080addb8cfff593a488dc051b
  else sampleHash

def sampleHashed : List (List UInt8) :=
  [sampleBegin.bytes, listBytes sampleRound.allCommitments, listBytes sampleRound.allComponents,
    sampleRound.bytes sampleSha256 (sampleSha256 sampleBegin.bytes)]

theorem mem_sampleHashed {bytes : List UInt8}
    (hHashed : Hashed sampleSha256 sampleBegin [sampleRound] bytes) : bytes ∈ sampleHashed := by
  unfold sampleHashed
  cases hHashed with
  | record hRecord =>
    cases hRecord with
    | first => exact List.mem_cons_self
    | next done step rest hSplit =>
      cases done with
      | nil =>
        rw [List.nil_append] at hSplit
        rw [← (List.cons.inj hSplit).1]
        simp [HashChain.chain]
      | cons made done =>
        have hNil := (List.cons.inj hSplit).2
        simp at hNil
  | commitments hMem =>
    rw [List.mem_singleton.mp hMem]
    simp
  | components hMem =>
    rw [List.mem_singleton.mp hMem]
    simp

theorem collisionFree_sample :
    CollisionFree sampleSha256 sampleBegin sampleBegin [sampleRound] [sampleRound] := by
  have hAll :
      sampleHashed.all
          (fun x => sampleHashed.all (fun y => decide (sampleSha256 x = sampleSha256 y → x = y))) =
        true := by
    decide +kernel
  intro x y hX hY
  exact of_decide_eq_true
    (List.all_eq_true.mp (List.all_eq_true.mp hAll x (mem_sampleHashed hX)) y (mem_sampleHashed hY))

/- Two players of the session accept the hash of its round. -/
theorem session_hash_binds_sample :
    acceptHash sampleSha256 (sessionHash sampleSha256 sampleBegin []) sampleRound
        (some sampleHash.toList) false = .ok sampleHash ∧
    ∀ (components : Wire Component) ripemd160 tx tx' i,
      FusionTx.fromComponents components sampleRound.allComponents sampleHash = .ok tx →
        FusionTx.fromComponents components sampleRound.allComponents sampleHash = .ok tx' →
        FusionTx.sighash sampleSha256 ripemd160 tx i =
          FusionTx.sighash sampleSha256 ripemd160 tx' i := by
  have hAccept :
      acceptHash sampleSha256 (sessionHash sampleSha256 sampleBegin []) sampleRound
          (some sampleHash.toList) false = .ok sampleHash := by
    decide +kernel
  refine ⟨hAccept, ?_⟩
  intro components ripemd160 tx tx' i hTx hTx'
  exact (((session_hash_binds collisionFree_sample).2 [] [] sampleRound sampleRound
        sampleHash.toList false false sampleHash sampleHash rfl rfl hAccept hAccept).2 components
      ripemd160).2 tx tx' i hTx hTx'

end OptnWallet.Fusion
