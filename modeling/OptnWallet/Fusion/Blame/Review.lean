import OptnWallet.Fusion.Balance

/-
  What a review that succeeds says of the proofs that were relayed: each of them is in one place,
  and a key is revealed only where it decrypts nothing.

  Main declarations:
    * `Fusion.Blame.Reviewed` and `reviewed_step`
    * `Fusion.Blame.Accounts`
    * `Fusion.Blame.review_accounts`
-/

--- Decryption

namespace OptnWallet.Fusion

namespace Blame

open StagedUpdate
open Schnorr (Curve compressed)
open Pedersen (Setup)

variable {n : Nat} {Point : Type} [AddCommGroup Point] [Module (ZMod n) Point] [DecidableEq Point]
variable {curve : Curve n Point} (setup : Setup curve) (sha256 : List UInt8 → Vector UInt8 32)
variable (cipher : Cipher) (wires : Wires) (shared : Shared) (privateKeys : List (Vector UInt8 32))

/- What decrypts does so with its session key too. -/
theorem decryptWithSessionKey_of_decrypt {sha256 : List UInt8 → Vector UInt8 32} {cipher : Cipher}
    {data message : List UInt8} {privkey : ZMod n}
    (hDecrypt : decrypt curve sha256 cipher data privkey = .ok message) :
    ∃ sessionKey,
    decryptWithSessionKey curve sha256 cipher data privkey = .ok (message, sessionKey) := by
  unfold decrypt at hDecrypt
  split at hDecrypt
  · cases hDecrypt
  rename_i hLong
  rcases bind_eq_ok_iff.mp hDecrypt with ⟨point, hPoint, hDecrypt⟩
  rcases bind_eq_ok_iff.mp hDecrypt with ⟨key, hKey, hDecrypt⟩
  unfold decryptWithSessionKey
  rw [if_neg (by omega), bind_of_ok hPoint, bind_of_ok hKey, bind_of_ok hDecrypt]
  exact ⟨key, rfl⟩

--- Places

/- The scalar of the key that a proof is encrypted to. -/
def KeyOf (relayed : RelayedProof) (key : Vector UInt8 32) (scalar : ZMod n) : Prop :=
  privateKeys[relayed.dstKeyIdx.toNat]? = some key ∧
    parseNonzeroScalar n key.toList "communication private key" = .ok scalar

/- The proof is decrypted, and checked with this result. -/
def Checks (relayed : RelayedProof) (sessionKey : Vector UInt8 32)
    (result : Except String ValidatedProof) : Prop :=
  ∃ source key scalar message,
    shared.allCommitments[relayed.srcCommitmentIdx.toNat]? = some source ∧
      @KeyOf n privateKeys relayed key scalar ∧
      decryptWithSessionKey curve sha256 cipher relayed.encryptedProof scalar =
        .ok (message, sessionKey) ∧
      validateProofInternal setup sha256 wires message source shared.allComponents
          shared.badComponents shared.componentFeerate = result

/- The private key is revealed, with which the proof does not decrypt. -/
def RevealsKey (curve : Curve n Point) (relayed : RelayedProof) (blame : BlameProof) : Prop :=
  ∃ key,
    ∃ scalar : ZMod n,
      KeyOf privateKeys relayed key scalar ∧
        (∀ message, decrypt curve sha256 cipher relayed.encryptedProof scalar ≠ .ok message) ∧
        blame.decrypter = some (.privkey key.toList) ∧
        blame.blameReason = some "undecryptable"

section

variable (relayed : RelayedProof)

/- Only the key of the one proof is revealed, which is not valid. -/
def RevealsSession (blame : BlameProof) : Prop :=
  ∃ sessionKey error,
    Checks setup sha256 cipher wires shared privateKeys relayed sessionKey (.error error) ∧
      blame.decrypter = some (.sessionKey sessionKey.toList) ∧
      blame.blameReason = some error

/- The input of a valid proof, to be looked up. -/
def LooksUp (lookup : InputLookupRequired) : Prop :=
  Checks setup sha256 cipher wires shared privateKeys relayed lookup.sessionKey
      (.ok (.inputNeedsBlockchainLookup lookup.input)) ∧
    lookup.sourceCommitmentIndex = relayed.srcCommitmentIdx.toNat

def IsNonInput : Prop :=
  ∃ sessionKey,
    Checks setup sha256 cipher wires shared privateKeys relayed sessionKey
      (.ok .internallyValidNonInput)

end

/- The indices of all proofs with a place. -/
def placed (blames : List BlameProof) (lookups : List InputLookupRequired) (nonInputs : List Nat) :
    List Nat :=
  blames.map (fun blame => blame.whichProof.toNat) ++
    (lookups.map InputLookupRequired.relayedProofIndex ++ nonInputs)

/- The proofs that were reviewed so far, each in its place. -/
structure Reviewed (ownedGlobal : List Nat) (consumed : List (RelayedProof × Nat))
    (state : ReviewState) (nonInputs : List Nat) : Prop where
  once :
    (placed state.blames state.inputsRequiringBlockchainLookup nonInputs).Perm
      (consumed.map Prod.snd)
  count : state.internallyValidNonInputs = nonInputs.length
  blames :
    ∀ blame ∈ state.blames,
    ∃ entry ∈ consumed,
      entry.2 = blame.whichProof.toNat ∧ (RevealsKey sha256 cipher privateKeys curve entry.1 blame ∨
          RevealsSession setup sha256 cipher wires shared privateKeys entry.1 blame)
  lookups :
    ∀ lookup ∈ state.inputsRequiringBlockchainLookup,
    ∃ entry ∈ consumed,
      entry.2 = lookup.relayedProofIndex ∧
        LooksUp setup sha256 cipher wires shared privateKeys entry.1 lookup
  nonInputs :
    ∀ index ∈ nonInputs,
    ∃ entry ∈ consumed,
      entry.2 = index ∧ IsNonInput setup sha256 cipher wires shared privateKeys entry.1
  sources : state.sources = (consumed.map (fun entry => entry.1.srcCommitmentIdx.toNat)).reverse
  nodup : state.sources.Nodup
  foreign : ∀ source ∈ state.sources, source < shared.allCommitments.length ∧ source ∉ ownedGlobal

--- One Proof

variable {setup sha256 cipher wires shared privateKeys}

/- What a proof in place is. -/
structure Admits (shared : Shared) (privateKeys : List (Vector UInt8 32))
    (ownedGlobal sources : List Nat) (proofIndex : Nat) (relayed : RelayedProof)
    (admitted : Admitted n) : Prop where
  source : shared.allCommitments[relayed.srcCommitmentIdx.toNat]? = some admitted.source
  foreign : relayed.srcCommitmentIdx.toNat ∉ ownedGlobal
  fresh : relayed.srcCommitmentIdx.toNat ∉ sources
  key : KeyOf privateKeys relayed admitted.privateBytes admitted.privateScalar
  which : admitted.whichProof.toNat = proofIndex

theorem orBlame_eq_ok_iff {α : Type} {value : Option α} {message : String} {a : α} :
    orBlame value message = .ok a ↔ value = some a := by
  cases value with
  | none =>
    constructor
    · intro hOk
      cases hOk
    · intro hSome
      cases hSome
  | some other =>
    constructor
    · intro hOk
      cases hOk
      rfl
    · intro hSome
      cases hSome
      rfl

variable {ownedGlobal : List Nat}

theorem admits_of_admit {sources : List Nat} {proofIndex : Nat} {relayed : RelayedProof}
    {admitted : Admitted n}
    (hAdmit : admitProof shared privateKeys ownedGlobal sources proofIndex relayed = .ok admitted) :
    Admits shared privateKeys ownedGlobal sources proofIndex relayed admitted := by
  unfold admitProof at hAdmit
  rcases bind_eq_ok_iff.mp hAdmit with ⟨source, hSource, hAdmit⟩
  split at hAdmit
  · cases hAdmit
  rename_i hForeign
  split at hAdmit
  · cases hAdmit
  rename_i hFresh
  rcases bind_eq_ok_iff.mp hAdmit with ⟨key, hKey, hAdmit⟩
  rcases bind_eq_ok_iff.mp hAdmit with ⟨scalar, hScalar, hAdmit⟩
  split at hAdmit
  · cases hAdmit
  rename_i hIndex
  cases hAdmit
  constructor
  · exact orBlame_eq_ok_iff.mp hSource
  · intro hMem
    exact hForeign (List.contains_iff_mem.mpr hMem)
  · intro hMem
    exact hFresh (List.contains_iff_mem.mpr hMem)
  · exact ⟨orBlame_eq_ok_iff.mp hKey, hScalar⟩
  · exact UInt32.toNat_ofNat_of_lt' (Nat.lt_of_not_le hIndex)

/- The ways that one proof is placed. -/
inductive StepsTo (state : ReviewState) (entry : RelayedProof × Nat) (admitted : Admitted n) :
    ReviewState → Prop where
  | undecryptable
      (hFails : ∀ message,
            decrypt curve sha256 cipher entry.1.encryptedProof admitted.privateScalar ≠ .ok message)
          : 
      StepsTo state entry admitted
        { sources := entry.1.srcCommitmentIdx.toNat :: state.sources
          blames := state.blames ++ [undecryptable admitted]
          inputsRequiringBlockchainLookup := state.inputsRequiringBlockchainLookup
          internallyValidNonInputs := state.internallyValidNonInputs }
  | invalid (message : List UInt8) (sessionKey : Vector UInt8 32) (error : String)
      (hDecrypt :
        decryptWithSessionKey curve sha256 cipher entry.1.encryptedProof admitted.privateScalar =
          .ok (message, sessionKey))
      (hError :
            validateProofInternal setup sha256 wires message admitted.source shared.allComponents
                shared.badComponents shared.componentFeerate = .error error) : 
      StepsTo state entry admitted
        { sources := entry.1.srcCommitmentIdx.toNat :: state.sources
          blames := state.blames ++ [invalidProof admitted sessionKey error]
          inputsRequiringBlockchainLookup := state.inputsRequiringBlockchainLookup
          internallyValidNonInputs := state.internallyValidNonInputs }
  | input (message : List UInt8) (sessionKey : Vector UInt8 32) (input : InputComponent)
      (hDecrypt :
        decryptWithSessionKey curve sha256 cipher entry.1.encryptedProof admitted.privateScalar =
          .ok (message, sessionKey))
      (hValid :
        validateProofInternal setup sha256 wires message admitted.source shared.allComponents
            shared.badComponents shared.componentFeerate =
          .ok (.inputNeedsBlockchainLookup input)) :
      StepsTo state entry admitted
        { sources := entry.1.srcCommitmentIdx.toNat :: state.sources
          blames := state.blames
          inputsRequiringBlockchainLookup :=
            state.inputsRequiringBlockchainLookup ++
              [{ relayedProofIndex := entry.2
                 sourceCommitmentIndex := entry.1.srcCommitmentIdx.toNat
                 input
                 sessionKey }]
          internallyValidNonInputs := state.internallyValidNonInputs }
  | nonInput (message : List UInt8) (sessionKey : Vector UInt8 32)
      (hDecrypt :
        decryptWithSessionKey curve sha256 cipher entry.1.encryptedProof admitted.privateScalar =
          .ok (message, sessionKey))
      (hValid :
            validateProofInternal setup sha256 wires message admitted.source shared.allComponents
                shared.badComponents shared.componentFeerate = .ok .internallyValidNonInput) : 
      StepsTo state entry admitted
        { sources := entry.1.srcCommitmentIdx.toNat :: state.sources
          blames := state.blames
          inputsRequiringBlockchainLookup := state.inputsRequiringBlockchainLookup
          internallyValidNonInputs := state.internallyValidNonInputs + 1 }

variable {state next : ReviewState} {entry : RelayedProof × Nat}

theorem steps_of_reviewStep
    (hStep :
        reviewStep setup sha256 cipher wires shared privateKeys ownedGlobal state entry = .ok next)
      :
    ∃ admitted : Admitted n,
    Admits shared privateKeys ownedGlobal state.sources entry.2 entry.1 admitted ∧
      @StepsTo n Point _ _ _ curve setup sha256 cipher wires shared state entry admitted next := by
  unfold reviewStep at hStep
  rcases bind_eq_ok_iff.mp hStep with ⟨admitted, hAdmit, hStep⟩
  refine ⟨admitted, admits_of_admit (mapError_eq_ok_iff.mp hAdmit), ?_⟩
  dsimp only at hStep
  split at hStep
  · cases hStep
  · rename_i e hFails
    cases hStep
    apply StepsTo.undecryptable
    intro message hDecrypt
    rcases decryptWithSessionKey_of_decrypt hDecrypt with ⟨sessionKey, hOk⟩
    rw [hOk] at hFails
    cases hFails
  · rename_i message sessionKey hDecrypt
    split at hStep
    · rename_i hValid
      cases hStep
      exact .nonInput message sessionKey hDecrypt hValid
    · rename_i input hValid
      cases hStep
      exact .input message sessionKey input hDecrypt hValid
    · rename_i error hError
      cases hStep
      exact .invalid message sessionKey error hDecrypt hError

/- One more proof with a place of its own. -/
theorem Reviewed.extend {consumed : List (RelayedProof × Nat)} {nonInputs moreInputs : List Nat}
    {admitted : Admitted n}
    (hReviewed :
      @Reviewed n Point _ _ _ curve setup sha256 cipher wires shared privateKeys ownedGlobal
        consumed state nonInputs)
    (hAdmits : Admits shared privateKeys ownedGlobal state.sources entry.2 entry.1 admitted)
    (hSources : next.sources = entry.1.srcCommitmentIdx.toNat :: state.sources)
    (hPlaced :
      (placed next.blames next.inputsRequiringBlockchainLookup moreInputs).Perm
        (entry.2 :: placed state.blames state.inputsRequiringBlockchainLookup nonInputs))
    (hCount : next.internallyValidNonInputs = moreInputs.length)
    (hBlames : ∀ blame ∈ next.blames,
      blame ∈ state.blames ∨ entry.2 = blame.whichProof.toNat ∧
          (RevealsKey sha256 cipher privateKeys curve entry.1 blame ∨
            RevealsSession setup sha256 cipher wires shared privateKeys entry.1 blame))
    (hLookups : ∀ lookup ∈ next.inputsRequiringBlockchainLookup,
      lookup ∈ state.inputsRequiringBlockchainLookup ∨ entry.2 = lookup.relayedProofIndex ∧
          LooksUp setup sha256 cipher wires shared privateKeys entry.1 lookup)
    (hNonInputs : ∀ index ∈ moreInputs,
        index ∈ nonInputs ∨
          entry.2 = index ∧ IsNonInput setup sha256 cipher wires shared privateKeys entry.1) :
    @Reviewed n Point _ _ _ curve setup sha256 cipher wires shared privateKeys ownedGlobal
      (consumed ++ [entry]) next moreInputs := by
  have hLast : entry ∈ consumed ++ [entry] :=
    List.mem_append_right _ (List.mem_singleton_self entry)
  constructor
  · rw [List.map_append, List.map_singleton]
    refine (hPlaced.trans (hReviewed.once.cons _)).trans ?_
    exact (List.perm_append_singleton _ _).symm
  · exact hCount
  · intro blame hMem
    rcases hBlames blame hMem with hOld | hNew
    · rcases hReviewed.blames blame hOld with ⟨other, hOther, hFacts⟩
      exact ⟨other, List.mem_append_left _ hOther, hFacts⟩
    · exact ⟨entry, hLast, hNew⟩
  · intro lookup hMem
    rcases hLookups lookup hMem with hOld | hNew
    · rcases hReviewed.lookups lookup hOld with ⟨other, hOther, hFacts⟩
      exact ⟨other, List.mem_append_left _ hOther, hFacts⟩
    · exact ⟨entry, hLast, hNew⟩
  · intro index hMem
    rcases hNonInputs index hMem with hOld | hNew
    · rcases hReviewed.nonInputs index hOld with ⟨other, hOther, hFacts⟩
      exact ⟨other, List.mem_append_left _ hOther, hFacts⟩
    · exact ⟨entry, hLast, hNew⟩
  · rw [hSources, hReviewed.sources, List.map_append, List.map_singleton, List.reverse_append]
    rfl
  · rw [hSources, List.nodup_cons]
    exact ⟨hAdmits.fresh, hReviewed.nodup⟩
  · rw [hSources, List.forall_mem_cons]
    refine ⟨⟨?_, hAdmits.foreign⟩, hReviewed.foreign⟩
    exact (List.getElem?_eq_some_iff.mp hAdmits.source).1

theorem mem_concat_cases {α : Type} {front : List α} {last : α} {P : α → Prop} (hLast : P last) :
    ∀ a ∈ front ++ [last], a ∈ front ∨ P a := by
  intro a hMem
  rw [List.mem_append, List.mem_singleton] at hMem
  rcases hMem with hFront | rfl
  · exact .inl hFront
  · exact .inr hLast

theorem perm_between (front middle back : List Nat) (index : Nat) :
    (front ++ ((middle ++ [index]) ++ back)).Perm (index :: (front ++ (middle ++ back))) := by
  rw [List.append_assoc middle, ← List.append_assoc front, ← List.append_assoc front middle back]
  exact List.perm_middle

/- With one case for each way that a proof is placed. -/
theorem reviewed_step {consumed : List (RelayedProof × Nat)} {nonInputs : List Nat}
    (hReviewed :
      @Reviewed n Point _ _ _ curve setup sha256 cipher wires shared privateKeys ownedGlobal
        consumed state nonInputs)
    (hStep :
        reviewStep setup sha256 cipher wires shared privateKeys ownedGlobal state entry = .ok next)
      :
    ∃ moreInputs,
    @Reviewed n Point _ _ _ curve setup sha256 cipher wires shared privateKeys ownedGlobal
      (consumed ++ [entry]) next moreInputs := by
  rcases steps_of_reviewStep hStep with ⟨admitted, hAdmits, hSteps⟩
  have hWhich := hAdmits.which
  cases hSteps with
  | undecryptable hFails =>
    refine ⟨nonInputs,
      hReviewed.extend hAdmits rfl ?_ hReviewed.count ?_ (fun _ => .inl) (fun _ => .inl)⟩
    · unfold placed
      rw [List.map_append, List.append_assoc]
      change (_ ++ ([admitted.whichProof.toNat] ++ _)).Perm _
      rw [hWhich]
      exact List.perm_middle
    · apply mem_concat_cases
      exact ⟨hWhich.symm, .inl ⟨_, _, hAdmits.key, hFails, rfl, rfl⟩⟩
  | invalid message sessionKey error hDecrypt hError =>
    refine ⟨nonInputs,
      hReviewed.extend hAdmits rfl ?_ hReviewed.count ?_ (fun _ => .inl) (fun _ => .inl)⟩
    · unfold placed
      rw [List.map_append, List.append_assoc]
      change (_ ++ ([admitted.whichProof.toNat] ++ _)).Perm _
      rw [hWhich]
      exact List.perm_middle
    · apply mem_concat_cases
      exact ⟨hWhich.symm,
        .inr
          ⟨sessionKey, error, ⟨_, _, _, message, hAdmits.source, hAdmits.key, hDecrypt, hError⟩,
            rfl, rfl⟩⟩
  | input message sessionKey input hDecrypt hValid =>
    refine ⟨nonInputs,
      hReviewed.extend hAdmits rfl ?_ hReviewed.count (fun _ => .inl) ?_ (fun _ => .inl)⟩
    · unfold placed
      rw [List.map_append]
      exact perm_between _ _ _ _
    · apply mem_concat_cases
      exact ⟨rfl, ⟨_, _, _, message, hAdmits.source, hAdmits.key, hDecrypt, hValid⟩, rfl⟩
  | nonInput message sessionKey hDecrypt hValid =>
    refine
      ⟨entry.2 :: nonInputs, hReviewed.extend hAdmits rfl ?_ ?_ (fun _ => .inl) (fun _ => .inl) ?_⟩
    · unfold placed
      rw [← List.append_assoc, ← List.append_assoc]
      exact List.perm_middle
    · exact congrArg Nat.succ hReviewed.count
    · rintro index hMem
      rcases List.mem_cons.mp hMem with rfl | hOld
      · exact
          .inr ⟨rfl, sessionKey, _, _, _, message, hAdmits.source, hAdmits.key, hDecrypt, hValid⟩
      · exact .inl hOld

--- All Proofs

/- What a review says of the proofs that were relayed. -/
structure Accounts (setup : Setup curve) (sha256 : List UInt8 → Vector UInt8 32) (cipher : Cipher)
    (wires : Wires) (shared : Shared) (roundCommit : RoundCommit n Point)
    (theirs : List RelayedProof) (review : RelayedProofReview) (nonInputs : List Nat) : Prop where
  once :
    (placed review.blames review.inputsRequiringBlockchainLookup nonInputs).Perm
      (List.range theirs.length)
  count : review.internallyValidNonInputs = nonInputs.length
  total :
    review.blames.length + review.inputsRequiringBlockchainLookup.length +
        review.internallyValidNonInputs = theirs.length
  blames :
    ∀ blame ∈ review.blames,
    ∃ relayed,
      theirs[blame.whichProof.toNat]? = some relayed ∧
        (RevealsKey sha256 cipher roundCommit.communicationPrivateKeys curve relayed blame ∨
          RevealsSession setup sha256 cipher wires shared roundCommit.communicationPrivateKeys
            relayed blame)
  lookups :
    ∀ lookup ∈ review.inputsRequiringBlockchainLookup,
    ∃ relayed,
      theirs[lookup.relayedProofIndex]? = some relayed ∧
        LooksUp setup sha256 cipher wires shared roundCommit.communicationPrivateKeys relayed lookup
  nonInputs :
    ∀ index ∈ nonInputs,
    ∃ relayed,
      theirs[index]? = some relayed ∧
        IsNonInput setup sha256 cipher wires shared roundCommit.communicationPrivateKeys relayed
  sources : (theirs.map (fun relayed => relayed.srcCommitmentIdx.toNat)).Nodup
  foreign :
    ∀ relayed ∈ theirs,
    ∃ source,
      shared.allCommitments[relayed.srcCommitmentIdx.toNat]? = some source ∧
        source ∉ roundCommit.playerCommit.initialCommitments

/- Where a local commitment is, none of the commitments of the others is. -/
theorem owned_of_mem {locals : List (List UInt8)} {index : Nat} {source : List UInt8}
    (hUnique : shared.allCommitments.Nodup) (hLength : privateKeys.length = locals.length)
    (hOwned :
      (locals.zip privateKeys).mapM (ownedIndex curve wires shared.allCommitments) =
        .ok ownedGlobal) (hSource : shared.allCommitments[index]? = some source)
    (hLocal : source ∈ locals) : index ∈ ownedGlobal := by
  rcases List.getElem_of_mem hLocal with ⟨i, hLt, rfl⟩
  have hZip : i < (locals.zip privateKeys).length := by
    rw [List.length_zip, hLength, Nat.min_self]
    exact hLt
  have hEntry : (locals[i], privateKeys[i]) ∈ locals.zip privateKeys := by
    have hGet := List.getElem_mem hZip
    rwa [List.getElem_zip] at hGet
  rcases exists_of_mapM hOwned hEntry with ⟨found, hFound⟩
  have hMem := (mem_of_mapM hOwned).mpr ⟨_, hEntry, hFound⟩
  unfold ownedIndex at hFound
  rcases bind_eq_ok_iff.mp hFound with ⟨globalIdx, hGlobal, hFound⟩
  rcases bind_eq_ok_iff.mp hFound with ⟨_, -, hFound⟩
  rcases bind_eq_ok_iff.mp hFound with ⟨_, -, hFound⟩
  rcases bind_eq_ok_iff.mp hFound with ⟨_, -, hFound⟩
  rcases bind_eq_ok_iff.mp hFound with ⟨_, -, hFound⟩
  split at hFound
  · cases hFound
  cases hFound
  rw [mapError_eq_ok_iff, orBlame_eq_ok_iff, List.findIdx?_eq_some_iff_getElem] at hGlobal
  rcases hGlobal with ⟨hRange, hHere, -⟩
  rw [decide_eq_true_eq] at hHere
  rcases List.getElem?_eq_some_iff.mp hSource with ⟨hIndex, hSame⟩
  have hEqual := (hUnique.getElem_inj_iff).mp (hSame.trans hHere.symm)
  rw [hEqual]
  exact hMem

omit [DecidableEq Point] in
theorem nodup_of_validate {commitments : List (List UInt8)}
    (hValid : validateUniqueCommitments curve wires commitments = .ok ()) : commitments.Nodup := by
  unfold validateUniqueCommitments validateUniqueBlobs at hValid
  rcases bind_eq_ok_iff.mp hValid with ⟨_, hUnique, -⟩
  split at hUnique
  · assumption
  · cases hUnique

/- By induction over the proofs that were relayed. -/
theorem review_accounts {roundCommit : RoundCommit n Point} {theirs : List RelayedProof}
    {review : RelayedProofReview}
    (hReview : reviewRelayedProofs setup sha256 cipher wires shared roundCommit theirs = .ok review)
      :
    ∃ nonInputs, Accounts setup sha256 cipher wires shared roundCommit theirs review nonInputs := by
  unfold reviewRelayedProofs at hReview
  rcases bind_eq_ok_iff.mp hReview with ⟨_, hCommitments, hReview⟩
  rcases bind_eq_ok_iff.mp hReview with ⟨_, -, hReview⟩
  rcases bind_eq_ok_iff.mp hReview with ⟨_, -, hReview⟩
  dsimp only at hReview
  split at hReview
  · cases hReview
  rename_i hKeys
  rw [not_or, not_not] at hKeys
  rcases bind_eq_ok_iff.mp hReview with ⟨ownedGlobal, hOwned, hReview⟩
  split at hReview
  · cases hReview
  rcases bind_eq_ok_iff.mp hReview with ⟨state, hRun, hSame⟩
  cases hSame
  have hUnique := nodup_of_validate (mapError_eq_ok_iff.mp hCommitments)
  have hReviewed :
      ∃ nonInputs,
      @Reviewed n Point _ _ _ curve setup sha256 cipher wires shared
        roundCommit.communicationPrivateKeys ownedGlobal ([] ++ theirs.zipIdx) state nonInputs := by
    refine @foldlM_invariant _ _ _ _
      (fun consumed state => ∃ nonInputs,
          @Reviewed n Point _ _ _ curve setup sha256 cipher wires shared
            roundCommit.communicationPrivateKeys ownedGlobal consumed state nonInputs) ?_ [] _ _ _
      ?_ hRun
    · rintro consumed state entry next ⟨nonInputs, hSoFar⟩ hStep
      exact reviewed_step hSoFar hStep
    · refine ⟨[], ?_⟩
      constructor
      · exact List.Perm.refl _
      · rfl
      · exact List.forall_mem_nil _
      · exact List.forall_mem_nil _
      · exact List.forall_mem_nil _
      · rfl
      · exact List.nodup_nil
      · exact List.forall_mem_nil _
  rcases hReviewed with ⟨nonInputs, hReviewed⟩
  rw [List.nil_append] at hReviewed
  refine ⟨nonInputs, ?_⟩
  have hEntry :
      ∀ entry ∈ theirs.zipIdx, ∀ index, entry.2 = index → theirs[index]? = some entry.1 := by
    rintro ⟨relayed, i⟩ hMem index rfl
    exact List.mk_mem_zipIdx_iff_getElem?.mp hMem
  have hSources :
      state.sources.reverse = theirs.map (fun relayed => relayed.srcCommitmentIdx.toNat) := by
    rw [hReviewed.sources, List.reverse_reverse]
    have hFst := List.zipIdx_map_fst 0 theirs
    nth_rewrite 2 [← hFst]
    rw [List.map_map]
    rfl
  have hOnce := hReviewed.once
  rw [List.zipIdx_map_snd, ← List.range_eq_range'] at hOnce
  constructor
  · exact hOnce
  · exact hReviewed.count
  · have hLength := hOnce.length_eq
    unfold placed at hLength
    rw [List.length_append, List.length_append, List.length_map, List.length_map, List.length_range]
      at hLength
    change state.blames.length + state.inputsRequiringBlockchainLookup.length +
        state.internallyValidNonInputs = theirs.length
    rw [hReviewed.count, Nat.add_assoc]
    exact hLength
  · intro blame hMem
    rcases hReviewed.blames blame hMem with ⟨entry, hConsumed, hIndex, hFacts⟩
    exact ⟨entry.1, hEntry entry hConsumed _ hIndex, hFacts⟩
  · intro lookup hMem
    rcases hReviewed.lookups lookup hMem with ⟨entry, hConsumed, hIndex, hFacts⟩
    exact ⟨entry.1, hEntry entry hConsumed _ hIndex, hFacts⟩
  · intro index hMem
    rcases hReviewed.nonInputs index hMem with ⟨entry, hConsumed, hIndex, hFacts⟩
    exact ⟨entry.1, hEntry entry hConsumed _ hIndex, hFacts⟩
  · rw [← hSources]
    exact List.nodup_reverse.mpr hReviewed.nodup
  · intro relayed hMem
    have hSource : relayed.srcCommitmentIdx.toNat ∈ state.sources := by
      rw [← List.mem_reverse, hSources]
      exact List.mem_map_of_mem hMem
    rcases hReviewed.foreign _ hSource with ⟨hLt, hForeign⟩
    have hGet := List.getElem?_eq_getElem hLt
    refine ⟨_, hGet, ?_⟩
    intro hLocal
    exact hForeign (owned_of_mem hUnique hKeys.2 hOwned hGet hLocal)

--- Samples

open Schnorr (sevenEncode sevenSha256)

/- The commitment of a player, who has a key of its own. -/
def commitmentBlob (salt : UInt8) (key : ZMod 7) : List UInt8 :=
  Schema.encodeCommitment
    { saltedComponentHash := List.replicate 32 salt
      amountCommitment := 4 :: List.replicate 64 salt
      communicationKey := (sevenEncode key).toList }

/- Nothing but zeros is a tag, and blocks stay as they are. -/
def zeroCipher : Cipher where
  hmacSha256 := fun _ _ => Vector.replicate 32 0
  aesCbcDecrypt := fun _ ciphertext => some ciphertext

/- The fields of an empty proof are always written. -/
def emptyProofs : Wire Proof where
  encodeToVec := fun _ => [0x08, 0, 0x12, 0, 0x1a, 0]
  decode := fun _ => .ok { componentIdx := 0, salt := [], pedersenNonce := [] }

def sampleWires : Wires where
  proofs := emptyProofs
  commitments := Schema.commitments
  components := Schema.components

def sampleShared : Shared where
  allCommitments :=
    [commitmentBlob 1 ((4 : Nat) : ZMod 7), commitmentBlob 2 ((2 : Nat) : ZMod 7),
      commitmentBlob 3 ((3 : Nat) : ZMod 7)]
  allComponents := []
  badComponents := []
  componentFeerate := 1000

def sampleRound : RoundCommit 7 (ZMod 7) where
  playerCommit :=
    { initialCommitments := [commitmentBlob 1 ((4 : Nat) : ZMod 7)]
      excessFee := 0
      pedersenTotalNonce := []
      randomNumberCommitment := []
      blindSigRequests := [] }
  randomNumber := Vector.replicate 32 0
  requests := []
  componentsSorted := []
  proofs := []
  communicationPrivateKeys := [Rpa.scalarBytes 4]
  excessFee := 0

/- One that is too short, and one that decrypts to nothing. -/
def sampleTheirs : List RelayedProof :=
  [{ encryptedProof := [2], srcCommitmentIdx := 2, dstKeyIdx := 0 },
    { encryptedProof := (sevenEncode ((2 : Nat) : ZMod 7)).toList ++ List.replicate 32 0
      srcCommitmentIdx := 1
      dstKeyIdx := 0 }]

def sampleReview : RelayedProofReview where
  blames :=
    [{ whichProof := 0
       needLookupBlockchain := none
       blameReason := some "undecryptable"
       decrypter := some (.privkey (Rpa.scalarBytes 4).toList) },
      { whichProof := 1
        needLookupBlockchain := none
        blameReason := some "proof has unknown, duplicate, or non-canonical fields"
        decrypter := some (.sessionKey (Rpa.scalarBytes 5).toList) }]
  inputsRequiringBlockchainLookup := []
  internallyValidNonInputs := 0

theorem review_accounts_seven :
    ∃ nonInputs,
    Accounts sevenSetup sevenSha256 zeroCipher sampleWires sampleShared sampleRound sampleTheirs
      sampleReview nonInputs := review_accounts (by decide +kernel)

end Blame

end OptnWallet.Fusion
