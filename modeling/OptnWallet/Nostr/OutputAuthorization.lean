import OptnWallet.Nostr.BlindSchnorr

/-
  The coordinator's check of a batch of outputs: each output carries a credential for its
  component, and no serial, no output and no component comes twice.

  Main declarations:
    * `Nostr.verifyAuthorizedOutputBatch`
    * `Nostr.AuthorizedBatch`
    * `Nostr.verifyAuthorizedOutputBatch_spec`
-/

--- Outputs

namespace OptnWallet.Nostr

open StagedUpdate

open Schnorr (Curve)

def maxScriptHexChars : Nat := 20000

def maxMoney : Int := 21000000 * 100000000

structure AuthorizedOnionOutput where
  script : String
  value : Int
  credentialSerial : String
  credentialSig : String
  saltCommitment : String
deriving DecidableEq

def AuthorizedOnionOutput.output (self : AuthorizedOnionOutput) : FusionOutputRef :=
  { script := self.script, value := self.value }

def isSafeIntegerIn (value minimum maximum : Int) : Bool :=
  isSafeInteger value && minimum ≤ value && value ≤ maximum

/- Text of so many hexadecimal digits in either case. -/
def isHexOf (length : Nat) (text : String) : Bool :=
  text.length = length && text.toList.all isHexChar

def validOutput (output : FusionOutputRef) : Bool :=
  0 < output.script.length &&
    output.script.length ≤ maxScriptHexChars &&
    output.script.length % 2 = 0 &&
    output.script.toList.all isHexChar &&
    isSafeIntegerIn output.value 546 maxMoney

def validAuthorizedOutput (output : AuthorizedOnionOutput) : Bool :=
  validOutput output.output &&
    isHexOf 64 output.credentialSerial &&
    isHexOf 128 output.credentialSig &&
    isHexOf 64 output.saltCommitment

--- Batches

variable {n : Nat} {Point : Type} [AddCommGroup Point] [Module (ZMod n) Point] [DecidableEq Point]
variable (hexToBin : String → List UInt8) (curve : Curve n Point)
variable (sha256 : List UInt8 → Vector UInt8 32)

/- What was seen of the outputs so far, the latest first. -/
structure SeenOutputs where
  serials : List String
  outputIds : List String
  componentHashes : List String
deriving DecidableEq

def serialKey (output : AuthorizedOnionOutput) : String := toLowerCase output.credentialSerial

def outputId (output : AuthorizedOnionOutput) : String :=
  toString output.value ++ ":" ++ toLowerCase output.script

variable (context : FusionCredentialContext)

def outputCredentialMessageHashHex (output : FusionOutputRef) (serial saltCommitmentHex : String) :
    Except String String :=
  (outputCredentialMessageHash hexToBin sha256 context output serial saltCommitmentHex).map
    (fun hash => hexString hash.toList)

def checkOutput (issuerPubkey : String) (seen : SeenOutputs) (output : AuthorizedOnionOutput) :
    Except String SeenOutputs :=
  if validAuthorizedOutput output = false then .error "malformed authorized output"
  else do
    let serial := serialKey output
    let msgHex ← outputCredentialMessageHashHex hexToBin sha256 context output.output serial
        output.saltCommitment
    if serial ∈ seen.serials ∨
        outputId output ∈ seen.outputIds ∨
        msgHex ∈ seen.componentHashes then
      .error "duplicate output credential or output"
    else if verifyBchSchnorrHex hexToBin curve sha256 issuerPubkey output.credentialSig msgHex =
          false then
      .error "invalid output credential"
    else
      .ok
        { serials := serial :: seen.serials
          outputIds := outputId output :: seen.outputIds
          componentHashes := msgHex :: seen.componentHashes }

/- The serials of the batch, if it is accepted. -/
def verifyAuthorizedOutputBatch (outputs : List AuthorizedOnionOutput) (expectedCount : Nat)
    (issuerPubkey : String) (context : FusionCredentialContext) : Except String (List String) :=
  if outputs.length ≠ expectedCount ∨ expectedCount < 1 then
    .error "output credential quota mismatch"
  else do
    let seen ← outputs.foldlM (checkOutput hexToBin curve sha256 context issuerPubkey)
        { serials := [], outputIds := [], componentHashes := [] }
    .ok seen.serials.reverse

--- Batches That Are Accepted

/- A credential of the issuer covers the component of the output. -/
def Credentialed (issuerPubkey : String) (output : AuthorizedOnionOutput) : Prop :=
  ∃ msgHex,
    outputCredentialMessageHashHex hexToBin sha256 context output.output (serialKey output)
          output.saltCommitment = .ok msgHex ∧
      verifyBchSchnorrHex hexToBin curve sha256 issuerPubkey output.credentialSig msgHex = true

/- What has been checked of a part of a batch. -/
structure CheckedOutputs (context : FusionCredentialContext) (issuerPubkey : String)
    (outputs : List AuthorizedOnionOutput) (seen : SeenOutputs) : Prop where
  serials : seen.serials = (outputs.map serialKey).reverse
  outputIds : seen.outputIds = (outputs.map outputId).reverse
  serials_nodup : (outputs.map serialKey).Nodup
  outputIds_nodup : (outputs.map outputId).Nodup
  hashes :
    (outputs.mapM
          (fun output =>
            outputCredentialMessageHashHex hexToBin sha256 context output.output (serialKey output)
              output.saltCommitment)) = .ok seen.componentHashes.reverse
  hashes_nodup : seen.componentHashes.Nodup
  valid : ∀ output ∈ outputs, validAuthorizedOutput output = true
  credentialed : ∀ output ∈ outputs, Credentialed hexToBin curve sha256 context issuerPubkey output

variable {hexToBin curve sha256}

theorem checkedOutputs_step {context : FusionCredentialContext} {issuerPubkey : String}
    {outputs : List AuthorizedOnionOutput} {seen seen' : SeenOutputs}
    {output : AuthorizedOnionOutput}
    (hChecked : CheckedOutputs hexToBin curve sha256 context issuerPubkey outputs seen)
    (hStep : checkOutput hexToBin curve sha256 context issuerPubkey seen output = .ok seen') :
    CheckedOutputs hexToBin curve sha256 context issuerPubkey (outputs ++ [output]) seen' := by
  unfold checkOutput at hStep
  split at hStep
  · cases hStep
  rename_i hValid
  rw [Bool.not_eq_false] at hValid
  rw [bind_eq_ok_iff] at hStep
  rcases hStep with ⟨msgHex, hHash, hStep⟩
  split at hStep
  · cases hStep
  rename_i hFresh
  split at hStep
  · cases hStep
  rename_i hVerify
  rw [Bool.not_eq_false] at hVerify
  rw [not_or, not_or] at hFresh
  rcases hFresh with ⟨hSerial, hOutputId, hMsg⟩
  rw [hChecked.serials, List.mem_reverse] at hSerial
  rw [hChecked.outputIds, List.mem_reverse] at hOutputId
  cases hStep
  constructor
  · rw [hChecked.serials]
    simp
  · rw [hChecked.outputIds]
    simp
  · rw [List.map_append, List.map_singleton]
    exact List.nodup_append.mpr
        ⟨hChecked.serials_nodup, List.nodup_singleton _,
          fun a hA b hB hSame => hSerial
              (by
                rw [← List.mem_singleton.mp hB, ← hSame]
                exact hA)⟩
  · rw [List.map_append, List.map_singleton]
    exact List.nodup_append.mpr
        ⟨hChecked.outputIds_nodup, List.nodup_singleton _,
          fun a hA b hB hSame => hOutputId
              (by
                rw [← List.mem_singleton.mp hB, ← hSame]
                exact hA)⟩
  · rw [List.mapM_append, hChecked.hashes, List.mapM_cons, hHash]
    simp [bind, Except.bind, pure, Except.pure]
  · exact List.nodup_cons.mpr ⟨hMsg, hChecked.hashes_nodup⟩
  · intro other hMem
    rcases List.mem_append.mp hMem with hOld | hNew
    · exact hChecked.valid other hOld
    · rw [List.mem_singleton.mp hNew]
      exact hValid
  · intro other hMem
    rcases List.mem_append.mp hMem with hOld | hNew
    · exact hChecked.credentialed other hOld
    · rw [List.mem_singleton.mp hNew]
      exact ⟨msgHex, hHash, hVerify⟩

/- A batch that is accepted, and its serials. -/
structure AuthorizedBatch (hexToBin : String → List UInt8) (curve : Curve n Point)
    (sha256 : List UInt8 → Vector UInt8 32) (context : FusionCredentialContext)
    (issuerPubkey : String) (outputs : List AuthorizedOnionOutput) (expectedCount : Nat)
    (serials : List String) : Prop where
  length_eq : outputs.length = expectedCount
  one_le : 1 ≤ expectedCount
  serials_eq : serials = outputs.map serialKey
  seen : ∃ seen, CheckedOutputs hexToBin curve sha256 context issuerPubkey outputs seen

theorem verifyAuthorizedOutputBatch_spec {context : FusionCredentialContext} {issuerPubkey : String}
    {outputs : List AuthorizedOnionOutput} {expectedCount : Nat} {serials : List String}
    (hVerify :
        verifyAuthorizedOutputBatch hexToBin curve sha256 outputs expectedCount issuerPubkey context
            = .ok serials) :
    AuthorizedBatch hexToBin curve sha256 context issuerPubkey outputs expectedCount serials := by
  unfold verifyAuthorizedOutputBatch at hVerify
  split at hVerify
  · cases hVerify
  rename_i hCount
  rw [not_or, not_lt, not_not] at hCount
  rw [bind_eq_ok_iff] at hVerify
  rcases hVerify with ⟨seen, hRun, hDone⟩
  have hStart :
      CheckedOutputs hexToBin curve sha256 context issuerPubkey []
        { serials := []
          outputIds := []
          componentHashes := [] } := by
    constructor
    · rfl
    · rfl
    · exact List.nodup_nil
    · exact List.nodup_nil
    · rfl
    · exact List.nodup_nil
    · intro output hMem
      cases hMem
    · intro output hMem
      cases hMem
  have hChecked :=
    foldlM_invariant (fun _ _ _ _ hInv hStep => checkedOutputs_step hInv hStep) hStart hRun
  rw [List.nil_append] at hChecked
  constructor
  · exact hCount.1
  · exact hCount.2
  · rw [← Except.ok.inj hDone, hChecked.serials, List.reverse_reverse]
  · exact ⟨seen, hChecked⟩

end OptnWallet.Nostr
