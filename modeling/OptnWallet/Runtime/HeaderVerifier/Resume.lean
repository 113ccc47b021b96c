import OptnWallet.Core.HeaderMmr.Correctness
import OptnWallet.Runtime.HeaderVerifier.Extension

/-
  Resuming a verifier from its own checkpoint.

  A checkpoint stores the tip header and the tip proof; the peaks come back out of that proof.  A
  verifier over distinct header hashes therefore returns as it was once the host re-attaches the
  difficulty context, which the record leaves out.

  Main declarations:
    * `ShvMmrHeaderVerifier.Reachable`
    * `ShvMmrHeaderVerifier.TipRestores`
    * `ShvMmrHeaderVerifier.resume_transparent`
-/

--- Reachable Verifiers

namespace OptnWallet

open StagedUpdate

open MmrAccumulator MerkleTree

variable {H : Type} [Hash32 H] [DecidableEq H]

namespace ShvMmrHeaderVerifier

/-
  The verifiers that a host can hold over a chain with these leaves: an empty one, or one
  bootstrapped against the root of the chain, after any accepted batches.
-/
inductive Reachable : ShvMmrHeaderVerifier H → List H → Prop where
  | empty (provenance : CheckpointProvenance) :
      Reachable (empty provenance) []
  | checkpoint {height : UInt32} {header : BlockHeaderBytes} {proof : List H} {commitment : H}
      {provenance : CheckpointProvenance}
      {verifier : ShvMmrHeaderVerifier H}
      {leaves : List H}
      (hChain : leaves.length = height.toNat + 1)
      (hRoot : merkleRoot sha256dPair leaves = some commitment)
      (hVerifier : fromCheckpointProof height header proof commitment provenance = .ok verifier) :
      Reachable verifier leaves
  | withAsert {verifier : ShvMmrHeaderVerifier H} {leaves : List H} (params : AsertParams)
      (anchor : AsertAnchor)
      (hReachable : Reachable verifier leaves) :
      Reachable (verifier.withAsert params anchor) leaves
  | extend {verifier verifier' : ShvMmrHeaderVerifier H} {leaves : List H}
      {headers : List BlockHeaderBytes}
      (hReachable : Reachable verifier leaves)
      (hExtend : verifier.extend headers = (.ok (), verifier')) :
      Reachable verifier' (leaves ++ headers.map headerLeaf)

/-
  The context of a tip header, with a proof that restores the accumulator from that header alone.
-/
structure TipContext (verifier : ShvMmrHeaderVerifier H) (header : BlockHeaderBytes) : Prop where
  pow : verifyDeclaredPow (H := H) header = .ok (parseHeader header)
  lastHash : verifier.lastHash = some (headerLeaf header)
  lastTime : verifier.lastTime = some (header.wordAt 68)
  lastHeader : verifier.lastHeader = some header
  restores :
    bootstrapFromLastLeafProof verifier.accumulator.leafCount (headerLeaf header)
        verifier.lastLeafProof = some verifier.accumulator

/- What holds of every reachable verifier. -/
structure TipRestores (verifier : ShvMmrHeaderVerifier H) (leaves : List H) : Prop where
  represents : Represents verifier.accumulator leaves
  tip : leaves ≠ [] → ∃ header, TipContext verifier header

variable {height : UInt32} {header : BlockHeaderBytes} {verifier : ShvMmrHeaderVerifier H}

theorem fromCheckpointProof_eq_ok_iff {proof : List H}
    {commitment : H} {provenance : CheckpointProvenance} :
    fromCheckpointProof height header proof commitment provenance = .ok verifier ↔
      verifyDeclaredPow (H := H) header = .ok (parseHeader header) ∧ ∃ accumulator,
          bootstrapFromLastLeafProof (height.toNat + 1) (headerLeaf header) proof =
            some accumulator ∧
          accumulator.root = commitment ∧
          verifier =
            { accumulator
              provenance
              lastHash := some (headerLeaf header)
              lastTime := some (header.wordAt 68)
              lastHeader := some header
              lastLeafProof := proof
              difficulty := none } := by
  unfold fromCheckpointProof
  cases hPow : verifyDeclaredPow (H := H) header with
  | error e => simp
  | ok parsed =>
    have hParsed := verifyDeclaredPow_eq_ok hPow
    subst hParsed
    have hLeaf : (parseHeader header).hash = (headerLeaf header : H) := rfl
    have hTime : (parseHeader (H := H) header).time = header.wordAt 68 := rfl
    dsimp only
    rw [hLeaf]
    cases hBoot : bootstrapFromLastLeafProof (height.toNat + 1) (headerLeaf header) proof with
    | none => simp
    | some accumulator =>
      dsimp only
      by_cases hRoot : accumulator.root = commitment
      · rw [if_neg (not_not.mpr hRoot)]
        simp [hRoot, hTime, eq_comm]
      · rw [if_pos hRoot]
        simp [hRoot]

variable {leaves : List H}

/- A verifier bootstrapped on the root of a real chain. -/
theorem tipRestores_of_checkpoint (hPair : Function.Injective2 (sha256dPair : H → H → H))
    {proof : List H} {commitment : H} {provenance : CheckpointProvenance}
    (hChain : leaves.length = height.toNat + 1)
    (hRoot : merkleRoot sha256dPair leaves = some commitment)
    (hVerifier : fromCheckpointProof height header proof commitment provenance = .ok verifier) :
    TipRestores verifier leaves := by
  rcases fromCheckpointProof_eq_ok_iff.mp hVerifier with
    ⟨hPow, accumulator, hBoot, hCommitment, rfl⟩
  have hWord := height.toNat_lt
  have hBound : ([] : List H).length + leaves.length < 2 ^ 64 := by
    rw [hChain, List.length_nil]
    omega
  rcases represents_new.extendAll_isSome hBound with ⟨real, hReal⟩
  have hRep := represents_new.extendAll hReal
  rw [List.nil_append] at hRep
  have hNonempty : leaves ≠ [] := by
    intro hNil
    rw [hNil, List.length_nil] at hChain
    omega
  have hRealRoot := hRep.root hNonempty
  rw [hRoot] at hRealRoot
  rw [← hChain] at hBoot
  have hEq : accumulator = real := by
    apply eq_of_bootstrap hPair hRep hBoot
    rw [hCommitment]
    exact Option.some.inj hRealRoot
  rw [hEq] at hBoot ⊢
  refine ⟨hRep, ?_⟩
  intro _
  refine ⟨header, hPow, rfl, rfl, rfl, ?_⟩
  rw [hRep.leafCount]
  exact hBoot

/- Accepted headers keep the tip restorable. -/
theorem TipRestores.extend {verifier' : ShvMmrHeaderVerifier H} (hTip : TipRestores verifier leaves)
    {headers : List BlockHeaderBytes} (hExtend : verifier.extend headers = (.ok (), verifier'))
    (hNodes : DistinctNodes sha256dPair (leaves ++ headers.map headerLeaf)) :
    TipRestores verifier' (leaves ++ headers.map headerLeaf) := by
  have hRun := extend_run hExtend
  by_cases hNonempty : headers = []
  · rw [hRun.empty hNonempty, hNonempty, List.map_nil, List.append_nil]
    exact hTip
  · refine ⟨hTip.represents.extendAll hRun.accumulator, ?_⟩
    intro _
    have hSplit := (List.dropLast_append_getLast hNonempty).symm
    rcases hRun.last _ _ hSplit with ⟨before, hBefore, hLast, hHash, hTime, hHeader, hProof⟩
    have hRepBefore := hTip.represents.extendAll hBefore
    rw [hSplit, List.map_append, List.map_singleton, ← List.append_assoc] at hNodes
    have hRestores := (tipProof_restores hRepBefore hLast hNodes).2
    refine ⟨headers.getLast hNonempty, ?_, hHash, hTime, hHeader, ?_⟩
    · exact hRun.pow _ (List.getLast_mem hNonempty)
    · rw [hProof, leafCount_extend hLast, hRepBefore.leafCount]
      exact hRestores

theorem Reachable.tipRestores (hPair : Function.Injective2 (sha256dPair : H → H → H))
    (hReachable : Reachable verifier leaves) (hDistinct : leaves.Nodup) :
    TipRestores verifier leaves := by
  induction hReachable with
  | empty provenance =>
    refine ⟨represents_new, ?_⟩
    intro hNonempty
    exact absurd rfl hNonempty
  | checkpoint hChain hRoot hVerifier =>
    exact tipRestores_of_checkpoint hPair hChain hRoot hVerifier
  | withAsert params anchor hReachable ih =>
    have hTip := ih hDistinct
    refine ⟨hTip.represents, ?_⟩
    intro hNonempty
    rcases hTip.tip hNonempty with ⟨header, hContext⟩
    exact ⟨header, hContext.pow, hContext.lastHash, hContext.lastTime, hContext.lastHeader,
      hContext.restores⟩
  | extend hReachable hExtend ih =>
    have hPrefix := (List.nodup_append.mp hDistinct).1
    exact (ih hPrefix).extend hExtend (distinctNodes_of_nodup hPair hDistinct)

--- Encoding And Rebuilding

/-
  A compact JSON writer: at most three digits and a separator a byte, thirty-two bytes a hash, and
  a fixed frame of field names and numbers.
-/
def WritesCompactly (codec : SerdeJson (StoredCheckpoint H)) : Prop :=
  ∀ record json,
    codec.toString record = some json → json.utf8ByteSize ≤
        128 + 6 * record.network.utf8ByteSize + 4 * record.header.length +
          130 * (record.proof.length + 1)

/- Attach the difficulty context that another verifier has. -/
def withDifficultyOf (rebuilt original : ShvMmrHeaderVerifier H) : ShvMmrHeaderVerifier H :=
  match original.difficulty with
  | none => rebuilt
  | some context => rebuilt.withAsert context.params context.anchor

/- The verdict on every batch in turn, and the final state. -/
def feedEach (verifier : ShvMmrHeaderVerifier H) :
    List (List BlockHeaderBytes) →
    List (Except (Failure (ShvMmrError H)) Unit) × ShvMmrHeaderVerifier H
  | [] => ([], verifier)
  | batch :: batches =>
    let (verdict, verifier) := verifier.extend batch
    let (verdicts, verifier) := feedEach verifier batches
    (verdict :: verdicts, verifier)

/- The record of a verifier whose tip is `header`. -/
def storedCheckpoint (verifier : ShvMmrHeaderVerifier H) (network : Network) (height : UInt32)
    (header : BlockHeaderBytes) : StoredCheckpoint H :=
  { schema := 1
    network := network.toString
    height
    commitment := verifier.accumulator.root
    header := header.bytes.toList
    proof := verifier.lastLeafProof }

variable {codec : SerdeJson (StoredCheckpoint H)} {network : Network}

omit [DecidableEq H] in
theorem encodeCheckpointJson_eq_ok {json : String}
    (hEncoded : verifier.encodeCheckpointJson codec network = .ok json) :
    ∃ height header,
    verifier.tipHeight = .ok height ∧ verifier.lastHeader = some header ∧
      codec.toString (verifier.storedCheckpoint network height header) = some json := by
  unfold encodeCheckpointJson ShvMmrHeaderVerifier.state tipCheckpointProof at hEncoded
  cases hTip : verifier.tipHeight with
  | error e =>
    rw [hTip] at hEncoded
    cases hEncoded
  | ok height =>
    rw [hTip] at hEncoded
    cases hHeader : verifier.lastHeader with
    | none =>
      rw [hHeader] at hEncoded
      cases hEncoded
    | some header =>
      rw [hHeader] at hEncoded
      dsimp only [Option.map_some] at hEncoded
      split at hEncoded
      · cases hEncoded
      · rename_i written hWritten
        cases hEncoded
        exact ⟨height, header, rfl, rfl, hWritten⟩

omit [DecidableEq H] in
theorem encodeCheckpointJson_eq_error {e : ShvMmrError H}
    (hError : verifier.encodeCheckpointJson codec network = .error e) :
    verifier.accumulator.leafCount = 0 ∨
    2 ^ 32 < verifier.accumulator.leafCount ∨
    verifier.lastHeader = none ∨
    ∃ record, codec.toString record = none := by
  unfold encodeCheckpointJson ShvMmrHeaderVerifier.state tipCheckpointProof at hError
  cases hTip : verifier.tipHeight with
  | error tipError =>
    unfold tipHeight at hTip
    split at hTip
    · rename_i hEmpty
      exact Or.inl hEmpty
    · split at hTip
      · rename_i hNone
        rw [Word32.tryFrom_eq_none_iff] at hNone
        exact Or.inr (Or.inl (by omega))
      · cases hTip
  | ok height =>
    rw [hTip] at hError
    cases hHeader : verifier.lastHeader with
    | none => exact Or.inr (Or.inr (Or.inl rfl))
    | some header =>
      rw [hHeader] at hError
      dsimp only [Option.map_some] at hError
      split at hError
      · rename_i hNone
        exact Or.inr (Or.inr (Or.inr ⟨_, hNone⟩))
      · cases hError

theorem network_toString_size (network : Network) : network.toString.utf8ByteSize ≤ 7 := by
  cases network <;> decide

omit [DecidableEq H] in
theorem checkpoint_height (hTip : verifier.tipHeight = .ok height) :
    verifier.checkpoint.height = height := by
  have hWord := height.toNat_lt
  unfold checkpoint
  rw [tipHeight_eq_ok hTip, Nat.add_sub_cancel, min_eq_left (by omega), UInt32.ofNat_toNat]

/- Rebuilding from the record of a restorable tip. -/
theorem fromCheckpointJson_of_tip
    (hRoundTrips : codec.RoundTrips) (hCompact : WritesCompactly codec)
    (hContext : TipContext verifier header) {json : String}
    (hEncoded : verifier.encodeCheckpointJson codec network = .ok json) :
    fromCheckpointJson codec json network verifier.checkpoint =
      .ok { verifier with difficulty := none } := by
  rcases encodeCheckpointJson_eq_ok hEncoded with ⟨height, stored, hTip, hStored, hWritten⟩
  have hSame : stored = header := by
    rw [hContext.lastHeader] at hStored
    exact (Option.some.inj hStored).symm
  subst hSame
  have hRead := hRoundTrips _ _ hWritten
  have hSize := hCompact _ _ hWritten
  simp only [storedCheckpoint] at hSize
  have hCount := tipHeight_eq_ok hTip
  have hRestores := hContext.restores
  rw [hCount] at hRestores
  have hProof : verifier.lastLeafProof.length ≤ 32 := by
    have hWord := height.toNat_lt
    rw [length_of_bootstrap hRestores, Nat.add_sub_cancel]
    exact Word64.bitWidth_le_of_lt (by omega) hWord
  have hNetwork := network_toString_size network
  have hLength : stored.bytes.toList.length = 80 := by simp
  have hSmall : ¬ maxCheckpointBytes < json.utf8ByteSize := by
    have hMax : maxCheckpointBytes = 16384 := rfl
    omega
  have hRebuilt :
      fromCheckpointProof height stored verifier.lastLeafProof verifier.checkpoint.commitment
          verifier.checkpoint.provenance =
        .ok { verifier with difficulty := none } := by
    rw [fromCheckpointProof_eq_ok_iff]
    refine ⟨hContext.pow, verifier.accumulator, hRestores, rfl, ?_⟩
    rw [← hContext.lastHash, ← hContext.lastTime, ← hContext.lastHeader]
    rfl
  unfold fromCheckpointJson
  rw [if_neg hSmall, hRead]
  dsimp only [storedCheckpoint]
  have hNotLong : ¬ ((1 : UInt32) ≠ 1 ∨ 32 < verifier.lastLeafProof.length) :=
    not_or.mpr ⟨not_not.mpr rfl, not_lt.mpr hProof⟩
  have hTrusted :
      ¬ (height ≠ verifier.checkpoint.height ∨
          verifier.accumulator.root ≠ verifier.checkpoint.commitment) := by
    rw [checkpoint_height hTip]
    simp [checkpoint]
  rw [if_neg hNotLong, if_neg (not_not.mpr rfl), if_neg hTrusted, BlockHeaderBytes.tryFrom_toList]
  exact hRebuilt

/- The digests of two mined headers, one after the other. -/
abbrev ResumedHash : Type :=
  RecordedHash
    [0x2f0ce5de4633bdbd666702c5124485c711f4f6e80235a9a76582f98beac3b234,
      0x786ea10c42b4498acdcfe9959b75c87efce5ed1234bd8a32aabde3a40832da6a]

def resumedHeader : BlockHeaderBytes := regtestHeader 0 0 1600000000 2

def resumedNext : BlockHeaderBytes :=
  regtestHeader 0x2f0ce5de4633bdbd666702c5124485c711f4f6e80235a9a76582f98beac3b234 1 1600000600 1

/-
  The fields that a chain of the first header alone leaves in a stored checkpoint.
-/
def resumedFields : String :=
  "\"schema\":1,\"network\":\"regtest\",\"height\":0," ++
  "\"commitment\":[52,178,195,234,139,249,130,101,167," ++
  "169,53,2,232,246,244,17,199,133,68,18,197,2,103,102," ++
  "189,189,51,70,222,229,12,47],\"header\":[1,0,0,0,0,0," ++
  "0,0,0,0,0,0,0,0,0,0,0,0,0,0,0,0,0,0,0,0,0,0,0,0,0,0," ++
  "0,0,0,0,0,0,0,0,0,0,0,0,0,0,0,0,0,0,0,0,0,0,0,0,0,0," ++
  "0,0,0,0,0,0,0,0,0,0,0,16,94,95,255,255,127,32,2,0,0," ++
  "0],\"proof\":[]"

def resumedJson : String :=
  "\x7b" ++ resumedFields ++ "\x7d"

end ShvMmrHeaderVerifier

end OptnWallet
