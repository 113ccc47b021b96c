import OptnWallet.Fusion.Components

/-
  What the players check of each other where a round failed: each reviews the proofs that the
  server relays to it, and names those that do not hold.

  Main declarations:
    * `Fusion.Blame.componentContribution`
    * `Fusion.Blame.decryptWithSessionKey`
    * `Fusion.Blame.validateProofInternal`
    * `Fusion.Blame.reviewRelayedProofs`
-/

--- Contributions

namespace OptnWallet.Fusion

namespace Blame

/- The fee of a component, with 128 bits for the product. -/
def componentFee (feerate : UInt64) (size : Nat) : Except String UInt64 :=
  let numerator := size * feerate.toNat + 999
  if 2 ^ 128 ≤ numerator then .error "component fee overflow"
  else if 2 ^ 64 ≤ numerator / 1000 then .error "component fee overflow"
  else .ok (UInt64.ofNat (numerator / 1000))

/- What a component adds to the sum of its player. -/
def componentContribution (n : Nat) (component : Component) (feerate : UInt64) :
    Except String (ZMod n) :=
  match component.component with
  | some (.input input) => do
      let fee ← componentFee feerate (108 + input.pubkey.length)
      .ok ((input.amount.toNat : ZMod n) - (fee.toNat : ZMod n))
  | some (.output output) => do
      let fee ← componentFee feerate (9 + output.scriptpubkey.length)
      .ok (-(output.amount.toNat : ZMod n) - (fee.toNat : ZMod n))
  | some .blank => .ok 0
  | none => .error "missing component details"

--- Encryption

open Schnorr (Curve compressed fromRepr)
open Pedersen (Setup)

/- The primitives of the symmetric cipher.  The blocks are chained from a start of zeros. -/
structure Cipher where
  hmacSha256 : List UInt8 → List UInt8 → Vector UInt8 32
  aesCbcDecrypt : Vector UInt8 32 → List UInt8 → Option (List UInt8)

def hmac16 (cipher : Cipher) (key : Vector UInt8 32) (ciphertext : List UInt8) : List UInt8 :=
  (cipher.hmacSha256 key.toList ciphertext).toList.take 16

def decryptWithSymmkey (cipher : Cipher) (data : List UInt8) (key : Vector UInt8 32) :
    Except String (List UInt8) :=
  if data.length < 33 + 16 + 16 then .error "ciphertext too short"
  else
    let ciphertext := (data.take (data.length - 16)).drop 33
    let tag := data.drop (data.length - 16)
    if ciphertext.length % 16 ≠ 0 then .error "ciphertext not block-aligned"
    else if hmac16 cipher key ciphertext ≠ tag then
      .error "MAC check failed — wrong key or tampered ciphertext"
    else
      match cipher.aesCbcDecrypt key ciphertext with
      | none => .error "AES decrypt failed"
      | some plaintext =>
        if plaintext.length < 4 then .error "plaintext too short"
        else
          let msglen := natOfBytesBE (plaintext.take 4)
          if plaintext.length < 4 + msglen then .error "declared message length exceeds plaintext"
          else .ok ((plaintext.drop 4).take msglen)

variable {n : Nat} {Point : Type} [AddCommGroup Point] [Module (ZMod n) Point] [DecidableEq Point]

section

variable (curve : Curve n Point) (sha256 : List UInt8 → Vector UInt8 32)

/- The key that two parties share over the curve. -/
def ecdhKey (scalar : ZMod n) (point : Point) : Except (Fault String) (Vector UInt8 32) :=
  (compressed curve (scalar • point)).map (fun shared => sha256 shared.toList)

def decrypt (cipher : Cipher)
    (data : List UInt8) (privkey : ZMod n) : Except (Fault String) (List UInt8) :=
  if data.length < 33 + 16 + 16 then .error (.error "ciphertext too short")
  else do
    let noncePoint ← (curve.parsePoint (data.take 33)).mapError Fault.error
    let key ← ecdhKey curve sha256 privkey noncePoint
    (decryptWithSymmkey cipher data key).mapError Fault.error

/- The session key is returned with what it decrypts. -/
def decryptWithSessionKey
    (cipher : Cipher) (ciphertext : List UInt8) (privateKey : ZMod n) :
    Except (Fault String) (List UInt8 × Vector UInt8 32) :=
  if ciphertext.length < 33 then .error (.error "ciphertext too short")
  else do
    let ephemeral ← (curve.parsePoint (ciphertext.take 33)).mapError Fault.error
    let sessionKey ← ecdhKey curve sha256 privateKey ephemeral
    let plaintext ← (decryptWithSymmkey cipher ciphertext sessionKey).mapError Fault.error
    .ok (plaintext, sessionKey)

end

--- Checks

/- How the messages of a proof are written and read. -/
structure Wires where
  proofs : Wire Proof
  commitments : Wire InitialCommitment
  components : Wire Component

/- Only what is written as it was read. -/
def strictDecode {Message : Type} (wire : Wire Message) (blob : List UInt8) (label : String) :
    Except String Message := do
  let message ← (wire.decode blob).mapError (fun _ => label ++ " decode error")
  if wire.encodeToVec message ≠ blob then
    .error (label ++ " has unknown, duplicate, or non-canonical fields")
  else .ok message

def validateUniqueBlobs (blobs : List (List UInt8)) (label : String) : Except String Unit :=
  if blobs.Nodup then .ok () else .error ("duplicate " ++ label)

def validateCommitment (curve : Curve n Point) (commitment : InitialCommitment) :
    Except String Unit := do
  if commitment.saltedComponentHash.length ≠ 32 then .error "bad salted component hash"
  else if commitment.amountCommitment.length ≠ 65 ∨ commitment.amountCommitment.head? ≠ some 4
  then .error "bad amount commitment"
  else
    let _ ←
      (curve.parsePoint commitment.amountCommitment).mapError (fun _ => "bad amount commitment")
    if commitment.communicationKey.length ≠ 33 ∨
        (commitment.communicationKey.head? ≠ some 2 ∧ commitment.communicationKey.head? ≠ some 3)
    then .error "bad communication key"
    else
      let _ ←
        (curve.parsePoint commitment.communicationKey).mapError (fun _ => "bad communication key")
      .ok ()

def validateUniqueCommitments (curve : Curve n Point) (wires : Wires)
    (commitments : List (List UInt8)) : Except String Unit := do
  validateUniqueBlobs commitments "commitment"
  commitments.forM
    (fun blob => do
      let commitment ← strictDecode wires.commitments blob "commitment"
      validateCommitment curve commitment)

def checkBadComponents (count : Nat) (seen : List UInt32) : List UInt32 → Except String Unit
  | [] => .ok ()
  | idx :: rest =>
    if count ≤ idx.toNat then .error "bad-component index out of range"
    else if seen.contains idx then .error "duplicate bad-component index"
    else checkBadComponents count (idx :: seen) rest

def validateBadComponents (bad : List UInt32) (count : Nat) : Except String Unit :=
  checkBadComponents count [] bad

def validateComponent (curve : Curve n Point) (component : Component) : Except String Unit :=
  if component.saltCommitment.length ≠ 32 then .error "bad salt commitment"
  else
    match component.component with
    | some (.input input) =>
      if input.prevTxid.length ≠ 32 then .error "bad input txid"
      else if ¬
          ((input.pubkey.length = 33 ∧ (input.pubkey.head? = some 2 ∨ input.pubkey.head? = some 3))
              ∨
            (input.pubkey.length = 65 ∧ input.pubkey.head? = some 4))
      then .error "bad input pubkey"
      else
        match curve.parsePoint input.pubkey with
        | .error _ => .error "bad input pubkey"
        | .ok _ => .ok ()
    | some (.output _) => .ok ()
    | some .blank => .ok ()
    | none => .error "missing component details"

def parseNonzeroScalar (n : Nat) (bytes : List UInt8) (label : String) : Except String (ZMod n) :=
  if hLength : bytes.length = 32 then
    match (fromRepr (Vector.mk bytes.toArray hLength) : Option (ZMod n))
    with
    | none => .error (label ++ " out of range")
    | some scalar =>
      if scalar = 0 then .error (label ++ " is zero")
      else .ok scalar
  else .error (label ++ " wrong length")

--- Proofs

inductive ValidatedProof where
  | internallyValidNonInput
  | inputNeedsBlockchainLookup (input : InputComponent)
deriving DecidableEq

variable {curve : Curve n Point} (setup : Setup curve) (sha256 : List UInt8 → Vector UInt8 32)
variable (cipher : Cipher) (wires : Wires)

def orBlame {α : Type} (value : Option α) (message : String) : Except String α :=
  match value with
  | some value => .ok value
  | none => .error message

/- The component is committed to by its salt, and its amount by the nonce. -/
def validateProofInternal (proofBlob commitmentBlob : List UInt8)
    (allComponents : List (List UInt8)) (badComponents : List UInt32) (componentFeerate : UInt64) :
    Except String ValidatedProof := do
  let proof ← strictDecode wires.proofs proofBlob "proof"
  let commitment ← strictDecode wires.commitments commitmentBlob "source commitment"
  validateCommitment curve commitment
  validateBadComponents badComponents allComponents.length
  let componentBlob ←
    orBlame allComponents[proof.componentIdx.toNat]? "component index out of range"
  if badComponents.contains proof.componentIdx then .error "component in bad list"
  else
    let component ← strictDecode wires.components componentBlob "component"
    validateComponent curve component
    if proof.salt.length ≠ 32 then .error "salt wrong length"
    else if (sha256 proof.salt).toList ≠ component.saltCommitment
    then .error "salt commitment mismatch"
    else if (sha256 (proof.salt ++ componentBlob)).toList ≠ commitment.saltedComponentHash
    then .error "salted component hash mismatch"
    else
      let nonce ← parseNonzeroScalar n proof.pedersenNonce "pedersen nonce"
      let contribution ← componentContribution n component componentFeerate
      let point := contribution • setup.h + nonce • curve.generator
      if point = 0 then .error "pedersen commitment is point at infinity"
      else if (setup.encodePoint point).toList ≠ commitment.amountCommitment
      then .error "pedersen commitment mismatch"
      else
        match component.component with
        | some (.input input) => .ok (.inputNeedsBlockchainLookup input)
        | some _ => .ok .internallyValidNonInput
        | none => .error "missing component details"

--- Review

structure RelayedProof where
  encryptedProof : List UInt8
  srcCommitmentIdx : UInt32
  dstKeyIdx : UInt32
deriving DecidableEq

inductive Decrypter where
  | sessionKey (bytes : List UInt8)
  | privkey (bytes : List UInt8)
deriving DecidableEq

structure BlameProof where
  whichProof : UInt32
  needLookupBlockchain : Option Bool
  blameReason : Option String
  decrypter : Option Decrypter
deriving DecidableEq

structure InputLookupRequired where
  relayedProofIndex : Nat
  sourceCommitmentIndex : Nat
  input : InputComponent
  sessionKey : Vector UInt8 32
deriving DecidableEq

structure RelayedProofReview where
  blames : List BlameProof
  inputsRequiringBlockchainLookup : List InputLookupRequired
  internallyValidNonInputs : Nat
deriving DecidableEq

/- Where a local commitment is in the global list, once its key is known to be the own one. -/
def ownedIndex (curve : Curve n Point) (wires : Wires) (allCommitments : List (List UInt8))
    (entry : List UInt8 × Vector UInt8 32) : Except (Fault String) Nat := do
  let globalIdx ← (orBlame (allCommitments.findIdx? (fun blob => blob = entry.1))
        "local commitment absent from global list").mapError Fault.error
  let localCommit ← (strictDecode wires.commitments entry.1 "local commitment").mapError Fault.error
  (validateCommitment curve localCommit).mapError Fault.error
  let scalar ←
    (parseNonzeroScalar n entry.2.toList "communication private key").mapError Fault.error
  let key ← compressed curve (scalar • curve.generator)
  if key.toList ≠ localCommit.communicationKey then
    .error (.error "communication private key mismatch")
  else .ok globalIdx

structure ReviewState where
  sources : List Nat
  blames : List BlameProof
  inputsRequiringBlockchainLookup : List InputLookupRequired
  internallyValidNonInputs : Nat

/- What all proofs of a round are reviewed against. -/
structure Shared where
  allCommitments : List (List UInt8)
  allComponents : List (List UInt8)
  badComponents : List UInt32
  componentFeerate : UInt64

variable (shared : Shared) (privateKeys : List (Vector UInt8 32))

/- A proof that is in place: whose it is, with the key it is encrypted to. -/
structure Admitted (n : Nat) where
  source : List UInt8
  privateBytes : Vector UInt8 32
  privateScalar : ZMod n
  whichProof : UInt32

def admitProof (ownedGlobal sources : List Nat) (proofIndex : Nat) (relayed : RelayedProof) :
    Except String (Admitted n) := do
  let sourceIdx := relayed.srcCommitmentIdx.toNat
  let source ← orBlame shared.allCommitments[sourceIdx]? "source commitment index out of range"
  if ownedGlobal.contains sourceIdx then .error "server relayed our own proof"
  else if sources.contains sourceIdx then .error "duplicate source commitment index"
  else
    let privateBytes ←
      orBlame privateKeys[relayed.dstKeyIdx.toNat]? "destination key index out of range"
    let privateScalar ← parseNonzeroScalar n privateBytes.toList "communication private key"
    if 2 ^ 32 ≤ proofIndex then .error "relayed proof index exceeds uint32"
    else .ok { source, privateBytes, privateScalar, whichProof := UInt32.ofNat proofIndex }

def undecryptable (admitted : Admitted n) : BlameProof :=
  { whichProof := admitted.whichProof
    needLookupBlockchain := none
    blameReason := some "undecryptable"
    decrypter := some (.privkey admitted.privateBytes.toList) }

def invalidProof (admitted : Admitted n) (sessionKey : Vector UInt8 32) (error : String) :
    BlameProof :=
  { whichProof := admitted.whichProof
    needLookupBlockchain := none
    blameReason := some error
    decrypter := some (.sessionKey sessionKey.toList) }

def reviewStep (ownedGlobal : List Nat) (state : ReviewState) (entry : RelayedProof × Nat) :
    Except (Fault String) ReviewState := do
  let relayed := entry.1
  let admitted ←
    (admitProof (n := n) shared privateKeys ownedGlobal state.sources entry.2 relayed).mapError
      Fault.error
  let sourceIdx := relayed.srcCommitmentIdx.toNat
  let state := { state with sources := sourceIdx :: state.sources }
  match decryptWithSessionKey curve sha256 cipher relayed.encryptedProof admitted.privateScalar
  with
  | .error .panic => .error .panic
  | .error (.error _) => .ok { state with blames := state.blames ++ [undecryptable admitted] }
  | .ok (proofBlob, sessionKey) =>
    match validateProofInternal setup sha256 wires proofBlob admitted.source shared.allComponents
        shared.badComponents shared.componentFeerate
    with
    | .ok .internallyValidNonInput =>
      .ok { state with internallyValidNonInputs := state.internallyValidNonInputs + 1 }
    | .ok (.inputNeedsBlockchainLookup input) =>
      .ok
        { state with
          inputsRequiringBlockchainLookup :=
            state.inputsRequiringBlockchainLookup ++
              [{ relayedProofIndex := entry.2
                 sourceCommitmentIndex := sourceIdx
                 input
                 sessionKey }] }
    | .error error =>
      .ok { state with blames := state.blames ++ [invalidProof admitted sessionKey error] }

def reviewRelayedProofs (roundCommit : RoundCommit n Point) (theirs : List RelayedProof) :
    Except (Fault String) RelayedProofReview := do
  (validateUniqueCommitments curve wires shared.allCommitments).mapError Fault.error
  (validateUniqueBlobs shared.allComponents "component").mapError Fault.error
  (validateBadComponents shared.badComponents shared.allComponents.length).mapError Fault.error
  let locals := roundCommit.playerCommit.initialCommitments
  let privateKeys := roundCommit.communicationPrivateKeys
  if locals.length = 0 ∨ privateKeys.length ≠ locals.length
  then .error (.error "inconsistent communication key count")
  else
    let ownedGlobal ← (locals.zip privateKeys).mapM (ownedIndex curve wires shared.allCommitments)
    if shared.allCommitments.length - locals.length < theirs.length
    then .error (.error "too many relayed proofs")
    else
      let state ←
        theirs.zipIdx.foldlM (reviewStep setup sha256 cipher wires shared privateKeys ownedGlobal)
          { sources := []
            blames := []
            inputsRequiringBlockchainLookup := []
            internallyValidNonInputs := 0 }
      .ok
        { blames := state.blames
          inputsRequiringBlockchainLookup := state.inputsRequiringBlockchainLookup
          internallyValidNonInputs := state.internallyValidNonInputs }

end Blame

end OptnWallet.Fusion
