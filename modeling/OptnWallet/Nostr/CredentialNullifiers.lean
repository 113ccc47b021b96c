import OptnWallet.Core.Fusion.Schnorr.Blind
import OptnWallet.Nostr.ComponentV4.Agreement
import OptnWallet.Nostr.OutputAuthorization

/-
  Nullifiers of output credentials.  The serials of a batch that is accepted are stored for the
  session, and no batch with one of them is accepted again.  A serial is supplied by whoever
  presents an output, and no credential covers it.

  Main declarations:
    * `Nostr.consumeOutputNullifiers`
    * `Nostr.serials_accepted_once`
    * `Nostr.components_accepted_once_iff`
-/

--- Storage

namespace OptnWallet.Nostr

open Schnorr (Curve)

/- The lists under the keys of the storage, if there is one, and what is kept until the program
   ends. -/
structure Nullifiers where
  storage : Option (String → List String)
  volatile : String → List String

def nullifierKey (session : String) : String :=
  "optn:p2p-fusion:v3:nullifiers:" ++ session

def isNullifier (serial : String) : Bool := serial.length = 64 && serial.toList.all isLowerHexChar

namespace Nullifiers

def read (self : Nullifiers) (session : String) : List String :=
  match self.storage with
  | none => self.volatile (nullifierKey session)
  | some items => ((items (nullifierKey session)).filter isNullifier).dedup

def write (self : Nullifiers) (session : String) (used : List String) : Nullifiers :=
  match self.storage with
  | none =>
    { storage := none, volatile := Function.update self.volatile (nullifierKey session) used }
  | some items =>
    { storage := some (Function.update items (nullifierKey session) (used.insertionSort (· ≤ ·)))
      volatile := self.volatile }

/- The storage stays when the program is started again. -/
def restart (self : Nullifiers) : Nullifiers :=
  { storage := self.storage
    volatile := fun _ => [] }

end Nullifiers

/- Whether the whole batch was consumed, and what is stored after it. -/
def consumeOutputNullifiers (session : String) (serials : List String) (self : Nullifiers) :
    Bool × Nullifiers :=
  let normalized := serials.map toLowerCase
  if normalized.length = 0 ∨ normalized.any (fun serial => !isNullifier serial) ∨
      ¬ normalized.Nodup then (false, self)
  else
    let used := self.read session
    if normalized.any (fun serial => used.contains serial) then (false, self)
    else (true, self.write session (used ++ normalized))

def clearRoundNullifiers (session : String) (self : Nullifiers) : Nullifiers :=
  { storage := self.storage.map (fun items => Function.update items (nullifierKey session) [])
    volatile := Function.update self.volatile (nullifierKey session) [] }

--- Runs

variable {n : Nat} {Point : Type} [AddCommGroup Point] [Module (ZMod n) Point] [DecidableEq Point]
variable (hexToBin : String → List UInt8) (curve : Curve n Point)
variable (sha256 : List UInt8 → Vector UInt8 32)

/- Batches come for any session, a session ends, and the program is started again. -/
inductive NullifierEvent where
  | outputs (context : FusionCredentialContext) (issuerPubkey : String) (expectedCount : Nat)
      (batch : List AuthorizedOnionOutput)
  | clear (session : String)
  | restart
deriving DecidableEq

/- Whether the batch is accepted: it is authorized, and then its serials are consumed. -/
def acceptOutputs (context : FusionCredentialContext) (issuerPubkey : String) (expectedCount : Nat)
    (batch : List AuthorizedOnionOutput) (self : Nullifiers) : Bool × Nullifiers :=
  match
    verifyAuthorizedOutputBatch hexToBin curve sha256 batch expectedCount issuerPubkey context with
  | .error _ => (false, self)
  | .ok serials => consumeOutputNullifiers context.session serials self

/- The outputs that are accepted for a session, in their order. -/
def acceptedOutputs (session : String) :
    Nullifiers → List NullifierEvent → List AuthorizedOnionOutput
  | _, [] => []
  | self, .outputs context issuerPubkey expectedCount batch ::
      events =>
      let result :=
        acceptOutputs hexToBin curve sha256 context issuerPubkey expectedCount batch self
      (if result.1 ∧ context.session = session then batch
        else []) ++
        acceptedOutputs session result.2 events
  | self, .clear other :: events => acceptedOutputs session (clearRoundNullifiers other self) events
  | self, .restart :: events => acceptedOutputs session self.restart events

/- The outputs that are presented for a session. -/
def presentedOutputs (session : String) (events : List NullifierEvent) :
    List AuthorizedOnionOutput :=
  events.flatMap
    (fun event =>
      match event with
      | .outputs context _ _ batch => if context.session = session then batch else []
      | _ => [])

/- The component of an output and the signature over it, in either case of letters. -/
def credentialedComponent (output : AuthorizedOnionOutput) : String × Int × String × String :=
  (toLowerCase output.script, output.value, toLowerCase output.saltCommitment,
    toLowerCase output.credentialSig)

--- One Batch

/- Digits are digits in the small case, where they stay. -/
theorem toLower_of_isHexChar {c : Char} (hHex : isHexChar c = true) :
    isLowerHexChar c.toLower = true ∧ c.toLower.toLower = c.toLower := by
  have hAll :
      ∀ code < 128,
      isHexChar (Char.ofNat code) = true → isLowerHexChar (Char.ofNat code).toLower = true ∧
          (Char.ofNat code).toLower.toLower = (Char.ofNat code).toLower := by
    decide
  have hHere := hAll c.toNat (toNat_lt_of_isHexChar hHex)
  rw [Char.ofNat_toNat] at hHere
  exact hHere hHex

variable {output : AuthorizedOnionOutput}

theorem serialKey_of_valid (hValid : validAuthorizedOutput output = true) :
    isNullifier (serialKey output) = true ∧ toLowerCase (serialKey output) = serialKey output := by
  unfold validAuthorizedOutput isHexOf at hValid
  simp only [Bool.and_eq_true, decide_eq_true_eq, List.all_eq_true] at hValid
  rcases hValid with ⟨⟨⟨-, hLength, hDigits⟩, -⟩, -⟩
  unfold serialKey isNullifier toLowerCase
  constructor
  · rw [Bool.and_eq_true, decide_eq_true_eq, List.all_eq_true, String.length_ofList,
      List.length_map, String.length_toList, String.toList_ofList]
    refine ⟨hLength, ?_⟩
    intro c hMem
    rcases List.mem_map.mp hMem with ⟨digit, hDigit, rfl⟩
    exact (toLower_of_isHexChar (hDigits digit hDigit)).1
  · rw [String.toList_ofList, List.map_map]
    apply congrArg
    apply List.map_congr_left
    intro digit hDigit
    exact (toLower_of_isHexChar (hDigits digit hDigit)).2

namespace Nullifiers

variable {self : Nullifiers} {session : String}

theorem mem_read_write (hPersistent : self.storage.isSome) {used : List String}
    (hUsed : ∀ serial ∈ used, isNullifier serial = true) {serial : String} :
    serial ∈ (self.write session used).read session ↔ serial ∈ used := by
  rcases Option.isSome_iff_exists.mp hPersistent with ⟨items, hItems⟩
  unfold write read
  rw [hItems]
  dsimp only
  rw [Function.update_self, List.mem_dedup, List.mem_filter, List.mem_insertionSort]
  exact ⟨fun hBoth => hBoth.1, fun hMem => ⟨hMem, hUsed _ hMem⟩⟩

theorem nullifierKey_injective : Function.Injective nullifierKey := by
  intro session other hSame
  have hText := congrArg String.toList hSame
  unfold nullifierKey at hText
  rw [String.toList_append, String.toList_append] at hText
  exact String.toList_inj.mp (List.append_cancel_left hText)

/- Other sessions are left as they are. -/
theorem read_write_of_ne {other : String} (hNe : other ≠ session) (used : List String) :
    (self.write session used).read other = self.read other := by
  have hKey : nullifierKey other ≠ nullifierKey session := by
    intro hSame
    exact hNe (nullifierKey_injective hSame)
  unfold write read
  cases self.storage with
  | none =>
    dsimp only
    rw [Function.update_of_ne hKey]
  | some items =>
    dsimp only
    rw [Function.update_of_ne hKey]

theorem isSome_write (self : Nullifiers) (session : String) (used : List String) :
    (self.write session used).storage.isSome = self.storage.isSome := by
  unfold write
  cases self.storage with
  | none => rfl
  | some items => rfl

theorem isNullifier_of_mem_read (hPersistent : self.storage.isSome) {serial : String}
    (hMem : serial ∈ self.read session) : isNullifier serial = true := by
  rcases Option.isSome_iff_exists.mp hPersistent with ⟨items, hItems⟩
  unfold read at hMem
  rw [hItems] at hMem
  dsimp only at hMem
  rw [List.mem_dedup, List.mem_filter] at hMem
  exact hMem.2

end Nullifiers

variable {session : String} {self self' : Nullifiers}

theorem consumeOutputNullifiers_eq_true_iff {serials : List String} :
    consumeOutputNullifiers session serials self = (true, self') ↔
    serials.map toLowerCase ≠ [] ∧ (∀ serial ∈ serials.map toLowerCase, isNullifier serial = true) ∧
      (serials.map toLowerCase).Nodup ∧
      (∀ serial ∈ serials.map toLowerCase, serial ∉ self.read session) ∧
      self' = self.write session (self.read session ++ serials.map toLowerCase) := by
  unfold consumeOutputNullifiers
  dsimp only
  generalize serials.map toLowerCase = normalized
  have hBounds :
      (normalized.length = 0 ∨ normalized.any (fun serial => !isNullifier serial) ∨
          ¬ normalized.Nodup) ↔
        ¬ (normalized ≠ [] ∧ (∀ serial ∈ normalized, isNullifier serial = true) ∧
          normalized.Nodup) := by
    simp only [List.length_eq_zero_iff, List.any_eq_true, Bool.not_eq_true', not_and_or, not_forall,
      ne_eq, not_not, Bool.not_eq_true, exists_prop]
  have hUsed :
      normalized.any (fun serial => (self.read session).contains serial) = true ↔
        ¬ ∀ serial ∈ normalized, serial ∉ self.read session := by
    simp only [List.any_eq_true, List.contains_iff_mem, not_forall, not_not, exists_prop]
  by_cases hWell :
    normalized ≠ [] ∧ (∀ serial ∈ normalized, isNullifier serial = true) ∧ normalized.Nodup
  · rw [if_neg (fun hBad => hBounds.mp hBad hWell)]
    by_cases hFresh : ∀ serial ∈ normalized, serial ∉ self.read session
    · rw [if_neg (fun hBad => hUsed.mp hBad hFresh)]
      constructor
      · intro hSame
        exact ⟨hWell.1, hWell.2.1, hWell.2.2, hFresh, (Prod.mk.inj hSame).2.symm⟩
      · intro hAll
        rw [hAll.2.2.2.2]
    · rw [if_pos (hUsed.mpr hFresh)]
      constructor
      · intro hSame
        cases (Prod.mk.inj hSame).1
      · intro hAll
        exact absurd hAll.2.2.2.1 hFresh
  · rw [if_pos (hBounds.mpr hWell)]
    constructor
    · intro hSame
      cases (Prod.mk.inj hSame).1
    · intro hAll
      exact absurd ⟨hAll.1, hAll.2.1, hAll.2.2.1⟩ hWell

/- A refusal stores nothing. -/
theorem consumeOutputNullifiers_of_false {serials : List String}
    (hRefused : (consumeOutputNullifiers session serials self).1 = false) :
    (consumeOutputNullifiers session serials self).2 = self := by
  unfold consumeOutputNullifiers at hRefused ⊢
  dsimp only at hRefused ⊢
  split
  · rfl
  · rename_i hWell
    rw [if_neg hWell] at hRefused
    split
    · rfl
    · rename_i hFresh
      rw [if_neg hFresh] at hRefused
      cases hRefused

variable {hexToBin curve sha256}

/- What an accepted batch is, and what it leaves. -/
structure AcceptedBatch (hexToBin : String → List UInt8) (curve : Curve n Point)
    (sha256 : List UInt8 → Vector UInt8 32) (context : FusionCredentialContext)
    (issuerPubkey : String) (batch : List AuthorizedOnionOutput) (before after : Nullifiers) :
    Prop where
  valid : ∀ output ∈ batch, validAuthorizedOutput output = true
  credentialed : ∀ output ∈ batch, Credentialed hexToBin curve sha256 context issuerPubkey output
  serials_nodup : (batch.map serialKey).Nodup
  fresh : ∀ output ∈ batch, serialKey output ∉ before.read context.session
  stored : after = before.write context.session (before.read context.session ++ batch.map serialKey)

variable {context : FusionCredentialContext} {issuerPubkey : String}
variable {batch : List AuthorizedOnionOutput}

theorem acceptOutputs_spec {expectedCount : Nat}
    (hAccept :
        acceptOutputs hexToBin curve sha256 context issuerPubkey expectedCount batch self =
          (true, self')) :
    AcceptedBatch hexToBin curve sha256 context issuerPubkey batch self self' := by
  unfold acceptOutputs at hAccept
  cases hVerify : verifyAuthorizedOutputBatch hexToBin curve sha256 batch expectedCount issuerPubkey
    context with
  | error reason =>
    rw [hVerify] at hAccept
    cases (Prod.mk.inj hAccept).1
  | ok serials =>
    rw [hVerify] at hAccept
    dsimp only at hAccept
    have hBatch := verifyAuthorizedOutputBatch_spec hVerify
    rcases hBatch.seen with ⟨seen, hChecked⟩
    have hLower : serials.map toLowerCase = batch.map serialKey := by
      rw [hBatch.serials_eq, List.map_map]
      apply List.map_congr_left
      intro output hMem
      exact (serialKey_of_valid (hChecked.valid output hMem)).2
    rw [consumeOutputNullifiers_eq_true_iff, hLower] at hAccept
    rcases hAccept with ⟨-, -, hNodup, hFresh, hStored⟩
    constructor
    · exact hChecked.valid
    · exact hChecked.credentialed
    · exact hNodup
    · intro output hMem
      exact hFresh _ (List.mem_map_of_mem hMem)
    · exact hStored

theorem acceptOutputs_of_false {expectedCount : Nat}
    (hRefused :
        (acceptOutputs hexToBin curve sha256 context issuerPubkey expectedCount batch self).1 =
          false) :
    (acceptOutputs hexToBin curve sha256 context issuerPubkey expectedCount batch self).2 =
      self := by
  unfold acceptOutputs at hRefused ⊢
  cases hVerify : verifyAuthorizedOutputBatch hexToBin curve sha256 batch expectedCount issuerPubkey
    context with
  | error reason => rfl
  | ok serials =>
    rw [hVerify] at hRefused
    exact consumeOutputNullifiers_of_false hRefused

--- All Batches

/- The serials that are stored for a session once a batch was accepted: a session of its own keeps
   what it had. -/
theorem mem_read_of_accepted (hPersistent : self.storage.isSome)
    (hBatch : AcceptedBatch hexToBin curve sha256 context issuerPubkey batch self self')
    (session : String) {serial : String} :
    serial ∈ self'.read session ↔
    serial ∈ self.read session ∨ context.session = session ∧ serial ∈ batch.map serialKey := by
  rw [hBatch.stored]
  by_cases hSession : context.session = session
  · rw [← hSession, Nullifiers.mem_read_write hPersistent]
    · rw [List.mem_append]
      simp
    · intro other hMem
      rcases List.mem_append.mp hMem with hOld | hNew
      · exact Nullifiers.isNullifier_of_mem_read hPersistent hOld
      · rcases List.mem_map.mp hNew with ⟨output, hOutput, rfl⟩
        exact (serialKey_of_valid (hBatch.valid _ hOutput)).1
  · rw [Nullifiers.read_write_of_ne (Ne.symm hSession)]
    simp [hSession]

/-
  The outputs that a run accepts for a session have serials that differ from each other and from
  all that was stored before.  By induction over the events: what one batch stores the later ones
  find.
-/
theorem serials_accepted_once (hPersistent : self.storage.isSome) {events : List NullifierEvent}
    (hActive : NullifierEvent.clear session ∉ events) :
    ((acceptedOutputs hexToBin curve sha256 session self events).map serialKey).Nodup ∧
    ∀ output ∈ acceptedOutputs hexToBin curve sha256 session self events,
      serialKey output ∉ self.read session := by
  induction events generalizing self with
  | nil =>
    refine ⟨List.nodup_nil, ?_⟩
    intro output hMem
    cases hMem
  | cons event events ih =>
    rw [List.mem_cons, not_or] at hActive
    cases event with
    | restart =>
      unfold acceptedOutputs
      have hRead : self.restart.read session = self.read session := by
        rcases Option.isSome_iff_exists.mp hPersistent with ⟨items, hItems⟩
        unfold Nullifiers.restart Nullifiers.read
        rw [hItems]
      rw [← hRead]
      exact ih hPersistent hActive.2
    | clear other =>
      unfold acceptedOutputs
      have hKey : nullifierKey session ≠ nullifierKey other := by
        intro hSame
        apply hActive.1
        rw [Nullifiers.nullifierKey_injective hSame]
      rcases Option.isSome_iff_exists.mp hPersistent with ⟨items, hItems⟩
      have hRead : (clearRoundNullifiers other self).read session = self.read session := by
        unfold clearRoundNullifiers Nullifiers.read
        rw [hItems, Option.map_some]
        dsimp only
        rw [Function.update_of_ne hKey]
      rw [← hRead]
      apply ih _ hActive.2
      unfold clearRoundNullifiers
      rw [hItems]
      rfl
    | outputs context issuerPubkey expectedCount batch =>
      unfold acceptedOutputs
      dsimp only
      rcases hResult : acceptOutputs hexToBin curve sha256 context issuerPubkey expectedCount batch
        self with ⟨accepted, self'⟩
      cases accepted with
      | false =>
        have hSame := acceptOutputs_of_false (congrArg Prod.fst hResult)
        rw [hResult] at hSame
        dsimp only at hSame ⊢
        rw [hSame, if_neg (by simp), List.nil_append]
        exact ih hPersistent hActive.2
      | true =>
        have hBatch := acceptOutputs_spec hResult
        have hStored : self'.storage.isSome = true := by
          rw [hBatch.stored, Nullifiers.isSome_write]
          exact hPersistent
        rcases ih hStored hActive.2 with ⟨hNodup, hFresh⟩
        have hOld : ∀ serial ∈ self.read session, serial ∈ self'.read session := by
          intro serial hMem
          rw [mem_read_of_accepted hPersistent hBatch]
          exact Or.inl hMem
        dsimp only
        by_cases hSession : context.session = session
        · rw [if_pos ⟨rfl, hSession⟩, List.map_append]
          constructor
          · rw [List.nodup_append]
            refine ⟨hBatch.serials_nodup, hNodup, ?_⟩
            intro serial hNew other hLater hSame
            rcases List.mem_map.mp hLater with ⟨output, hOutput, rfl⟩
            apply hFresh output hOutput
            rw [mem_read_of_accepted hPersistent hBatch, ← hSame]
            exact Or.inr ⟨hSession, hNew⟩
          · intro output hMem hStale
            rcases List.mem_append.mp hMem with hNew | hLater
            · apply hBatch.fresh output hNew
              rw [hSession]
              exact hStale
            · exact hFresh output hLater (hOld _ hStale)
        · rw [if_neg (fun hBoth => hSession hBoth.2), List.nil_append]
          refine ⟨hNodup, ?_⟩
          intro output hMem hStale
          exact hFresh output hMem (hOld _ hStale)

--- Components

section

variable (hexToBin : String → List UInt8) (curve : Curve n Point)
  (sha256 : List UInt8 → Vector UInt8 32) (session : String)

/- A credential of some issuer of the session covers the output. -/
def Acceptable (output : AuthorizedOnionOutput) : Prop :=
  validAuthorizedOutput output = true ∧
    ∃ (context : FusionCredentialContext) (issuerPubkey : String),
      context.session = session ∧ Credentialed hexToBin curve sha256 context issuerPubkey output

/- Whatever is stored before, and in whatever batches and order the outputs of a supply are
   presented, no credentialed component is accepted twice. -/
def AcceptedOnce (supply : Set AuthorizedOnionOutput) : Prop :=
  ∀ (self : Nullifiers) events,
    self.storage.isSome → NullifierEvent.clear session ∉ events →
      (∀ output ∈ presentedOutputs session events, output ∈ supply) →
      ((acceptedOutputs hexToBin curve sha256 session self events).map credentialedComponent).Nodup

/- A component comes with one serial. -/
def SerialsBound (supply : Set AuthorizedOnionOutput) : Prop :=
  ∀ first ∈ supply,
    ∀ second ∈ supply,
      Acceptable hexToBin curve sha256 session first →
        Acceptable hexToBin curve sha256 session second →
        credentialedComponent first = credentialedComponent second →
        serialKey first = serialKey second

end

/- By induction over the events. -/
theorem accepted_is_presented {events : List NullifierEvent}
    (hMem : output ∈ acceptedOutputs hexToBin curve sha256 session self events) :
    output ∈ presentedOutputs session events ∧ Acceptable hexToBin curve sha256 session output := by
  induction events generalizing self with
  | nil => cases hMem
  | cons event events ih =>
    cases event with
    | restart =>
      unfold acceptedOutputs at hMem
      exact ih hMem
    | clear other =>
      unfold acceptedOutputs at hMem
      exact ih hMem
    | outputs context issuerPubkey expectedCount batch =>
      unfold acceptedOutputs at hMem
      dsimp only at hMem
      unfold presentedOutputs at ih ⊢
      rw [List.flatMap_cons, List.mem_append]
      rcases List.mem_append.mp hMem with hHere | hLater
      · split at hHere
        · rename_i hAccepted
          have hBatch := acceptOutputs_spec (Prod.ext hAccepted.1 rfl)
          dsimp only
          rw [if_pos hAccepted.2]
          exact ⟨Or.inl hHere, hBatch.valid output hHere, context, issuerPubkey, hAccepted.2,
            hBatch.credentialed output hHere⟩
        · cases hHere
      · rcases ih hLater with ⟨hPresented, hAcceptable⟩
        exact ⟨Or.inr hPresented, hAcceptable⟩

/- A batch of one output is accepted where its serial is not stored. -/
theorem acceptOutputs_single (hValid : validAuthorizedOutput output = true)
    (hCredentialed : Credentialed hexToBin curve sha256 context issuerPubkey output)
    (self : Nullifiers) (hFresh : serialKey output ∉ self.read context.session) :
    acceptOutputs hexToBin curve sha256 context issuerPubkey 1 [output] self =
      (true, self.write context.session (self.read context.session ++ [serialKey output])) := by
  rcases hCredentialed with ⟨msgHex, hHash, hVerify⟩
  have hStep :
      checkOutput hexToBin curve sha256 context issuerPubkey
          { serials := [], outputIds := [], componentHashes := [] } output =
        .ok
          { serials := [serialKey output]
            outputIds := [outputId output]
            componentHashes := [msgHex] } := by
    unfold checkOutput
    rw [if_neg (by rw [hValid]; decide)]
    dsimp only
    rw [StagedUpdate.bind_of_ok hHash, if_neg (by simp), if_neg (by rw [hVerify]; decide)]
  have hBatch :
      verifyAuthorizedOutputBatch hexToBin curve sha256 [output] 1 issuerPubkey context =
        .ok [serialKey output] := by
    unfold verifyAuthorizedOutputBatch
    rw [if_neg (by simp), List.foldlM_cons, StagedUpdate.bind_of_ok hStep]
    rfl
  have hSerial := serialKey_of_valid hValid
  unfold acceptOutputs
  rw [hBatch]
  dsimp only
  rw [consumeOutputNullifiers_eq_true_iff, List.map_singleton, hSerial.2]
  refine ⟨List.cons_ne_nil _ _, ?_, List.nodup_singleton _, ?_, rfl⟩
  · intro serial hMem
    rw [List.mem_singleton.mp hMem]
    exact hSerial.1
  · intro serial hMem
    rw [List.mem_singleton.mp hMem]
    exact hFresh

/- Nothing is stored yet. -/
def emptyStorage : Nullifiers where
  storage := some (fun _ => [])
  volatile := fun _ => []

/- Two outputs with different serials are accepted one after the other. -/
theorem accepted_one_by_one {first second : AuthorizedOnionOutput}
    (hFirst : Acceptable hexToBin curve sha256 session first)
    (hSecond : Acceptable hexToBin curve sha256 session second)
    (hSerials : serialKey first ≠ serialKey second) :
    ∃ events,
    NullifierEvent.clear session ∉ events ∧ presentedOutputs session events = [first, second] ∧
      acceptedOutputs hexToBin curve sha256 session emptyStorage events = [first, second] := by
  rcases hFirst with ⟨hFirstValid, context, issuer, hContext, hFirstCovered⟩
  rcases hSecond with ⟨hSecondValid, context', issuer', hContext', hSecondCovered⟩
  have hEmpty : emptyStorage.read context.session = [] := rfl
  have hOne :=
    acceptOutputs_single hFirstValid hFirstCovered emptyStorage
      (by rw [hEmpty]; exact List.not_mem_nil)
  rw [hEmpty, List.nil_append] at hOne
  have hFresh :
      serialKey second ∉
        (emptyStorage.write context.session [serialKey first]).read context'.session := by
    rw [hContext', ← hContext, Nullifiers.mem_read_write rfl]
    · rw [List.mem_singleton]
      exact Ne.symm hSerials
    · intro serial hMem
      rw [List.mem_singleton.mp hMem]
      exact (serialKey_of_valid hFirstValid).1
  have hTwo := acceptOutputs_single hSecondValid hSecondCovered _ hFresh
  refine
    ⟨[.outputs context issuer 1 [first], .outputs context' issuer' 1 [second]], by simp, ?_, ?_⟩
  · unfold presentedOutputs
    simp [hContext, hContext']
  · unfold acceptedOutputs
    dsimp only
    rw [hOne]
    unfold acceptedOutputs
    dsimp only
    rw [hTwo]
    unfold acceptedOutputs
    simp [hContext, hContext']

/-
  No component is accepted twice in a session, whatever was stored and however often the program
  is started again, exactly when the outputs that are presented bind each component to one serial.
-/
theorem components_accepted_once_iff (hexToBin : String → List UInt8) (curve : Curve n Point)
    (sha256 : List UInt8 → Vector UInt8 32) (session : String)
    (supply : Set AuthorizedOnionOutput) :
    AcceptedOnce hexToBin curve sha256 session supply ↔
    SerialsBound hexToBin curve sha256 session supply := by
  constructor
  · intro hOnce first hFirstMem second hSecondMem hFirst hSecond hSame
    by_contra hSerials
    rcases accepted_one_by_one hFirst hSecond hSerials with ⟨events, hActive, hPresented, hAccepted⟩
    have hNodup :=
      hOnce emptyStorage events rfl hActive (by
        intro output hMem
        rw [hPresented] at hMem
        rcases List.mem_cons.mp hMem with rfl | hMem
        · exact hFirstMem
        · rw [List.mem_singleton.mp hMem]
          exact hSecondMem)
    rw [hAccepted] at hNodup
    exact (List.nodup_cons.mp hNodup).1 (by simp [hSame])
  · intro hBound self events hPersistent hActive hSupply
    have hSerials :
        ((acceptedOutputs hexToBin curve sha256 session self events).map serialKey).Nodup :=
      (serials_accepted_once hPersistent hActive).1
    unfold List.Nodup at hSerials ⊢
    rw [List.pairwise_map] at hSerials ⊢
    refine hSerials.imp_of_mem ?_
    intro first second hFirst hSecond hApart hSame
    have hFirstHere := accepted_is_presented hFirst
    have hSecondHere := accepted_is_presented hSecond
    exact hApart
      (hBound first (hSupply first hFirstHere.1) second (hSupply second hSecondHere.1) hFirstHere.2
        hSecondHere.2 hSame)

--- Samples

open Schnorr (sevenEncode sevenPoints sevenSha256 sevenSignature)

/- One component and one signature, with any digit as the serial. -/
def sampleAuthorized (digit : Char) : AuthorizedOnionOutput where
  script := String.ofList ("76a914".toList ++ List.replicate 40 '0' ++ "88ac".toList)
  value := 10000
  credentialSerial := String.ofList (List.replicate 64 digit)
  credentialSig := hexString (sevenSignature.rx.toList ++ sevenSignature.s.toList)
  saltCommitment := String.ofList (List.replicate 64 '5')

def sampleNullifierContext : FusionCredentialContext where
  session := "s"
  network := "chipnet"
  tier := 10000

def sampleReplay : List NullifierEvent :=
  [.outputs sampleNullifierContext (hexString (sevenEncode ((3 : Nat) : ZMod 7)).toList) 1
      [sampleAuthorized '1'], .restart,
    .outputs sampleNullifierContext (hexString (sevenEncode ((3 : Nat) : ZMod 7)).toList) 1
      [sampleAuthorized '2']]

/- With another serial the output is accepted again after the program was started again. -/
theorem fresh_serial_spends_again :
    ¬ AcceptedOnce sampleHexToBin sevenPoints sevenSha256 "s" Set.univ := by
  intro hOnce
  have hNodup :=
    hOnce emptyStorage sampleReplay rfl (by decide +kernel) (fun output _ => Set.mem_univ output)
  revert hNodup
  decide +kernel

end OptnWallet.Nostr
