import OptnWallet.Core.HexText
import OptnWallet.Fusion.P2pSign

/-
  What the signer of fusions between peers has approved when it answers: the template, its fee,
  the owned outputs, and one signature for each owned input.

  Main declarations:
    * `Fusion.P2pSign.Template.Approved`
    * `Fusion.P2pSign.SignedFor`
    * `Fusion.P2pSign.signs_only_approved`
-/

--- What Is Approved

namespace OptnWallet.Fusion

namespace P2pSign

open Schnorr (Curve fromRepr pubkeyCompressed verify)
open StagedUpdate WordSums Word64

/- The displayed outpoint of an input of the template. -/
def outpointText (input : P2pInput) : String :=
  hexString input.prevTxid.toList ++ ":" ++ toString input.prevIndex.toNat

/- An input of the template is what the text of a request says. -/
structure Decodes (input : SignInput) (canonical : P2pInput) : Prop where
  txid : decodeHex32 input.prevTxid "input txid" = .ok canonical.prevTxid
  pubkey : decodeVec input.pubkey "input pubkey" 65 = .ok canonical.pubkey
  pubkey_length : canonical.pubkey.length = 33
  index : canonical.prevIndex = input.prevIndex
  value : canonical.value = input.value

def DecodesOutput (label : String) (output : SignOutput) (canonical : P2pOutput) : Prop :=
  decodeVec output.script label maxScriptBytes = .ok canonical.script ∧
    canonical.value = output.value

section Checks

variable (sha256 : List UInt8 → Vector UInt8 32)

/-
  The template of a request, as it was approved: what is decoded is what is hashed into the bound
  hash.
-/
structure Approved (request : Request) (inputs : List P2pInput) (outputs : List P2pOutput)
    (tx : FusionTx) (hash : Vector UInt8 32) (fee : UInt64) : Prop where
  inputs_decode : List.Forall₂ Decodes request.inputs inputs
  outputs_decode : List.Forall₂ (DecodesOutput "output script") request.outputs outputs
  template : FusionTx.fromP2p inputs outputs = .ok tx
  bound :
    ∃ session transcript,
    decodeHex32 request.session "session" = .ok session ∧
      decodeHex32 request.transcriptHash "transcript hash" = .ok transcript ∧
      decodeHex32 request.templateHash "template hash" = .ok hash ∧
      boundTemplateHash sha256 request.network session transcript (tx.unsignedTemplateHash sha256) =
        hash
  outpoints : (inputs.map (fun input => (input.prevTxid, input.prevIndex))).Nodup
  owned_outputs :
    ∃ claimed : List P2pOutput,
    List.Forall₂ (DecodesOutput "owned output script") request.ownedOutputs claimed ∧
      claimed.Subperm outputs
  balance :
    total (inputs.map (fun input => input.value)) =
      total (outputs.map (fun output => output.value)) + fee.toNat
  values_lt : total (inputs.map (fun input => input.value)) < 2 ^ 64
  fee_ge : requiredFee inputs outputs request.feerate ≤ fee.toNat
  fee_le : fee.toNat ≤ min (requiredFee inputs outputs request.feerate * 3) request.maxFee.toNat

end Checks

section Signatures

variable {n : Nat} {Point : Type} [AddCommGroup Point] [Module (ZMod n) Point] [DecidableEq Point]
variable (curve : Curve n Point) (sha256 : List UInt8 → Vector UInt8 32)
variable (ripemd160 : List UInt8 → Vector UInt8 20)
variable (hmac : List UInt8 → List UInt8 → Vector UInt8 32) (fuel : Nat)

/-
  A signature for an owned input: it signs the input of the template with that outpoint, under the
  key that the template names.
-/
def SignedFor (inputs : List P2pInput) (tx : FusionTx) (owned : OwnedInput)
    (signature : InputSignature) : Prop :=
  ∃ (i : Nat) (input : P2pInput) (privateScalar : ZMod n)
      (pubkey : Vector UInt8 33) (digest : Vector UInt8 32)
      (sig : Schnorr.Signature),
    inputs[i]? = some input ∧
      outpoint owned.prevTxid owned.prevIndex = outpointText input ∧
      decodeVec owned.pubkey "owned pubkey" 65 = .ok input.pubkey ∧
      owned.value = input.value ∧
      parsePrivate owned.privateKey = .ok privateScalar ∧
      pubkeyCompressed curve privateScalar = .ok pubkey ∧
      pubkey.toList = input.pubkey ∧
      tx.sighash sha256 ripemd160 i = .ok digest ∧
      Schnorr.sign curve sha256 hmac fuel privateScalar digest = .ok sig ∧
      verify curve sha256 input.pubkey sig digest = .ok true ∧
      signature = { outpoint := outpointText input, signature := hexString (signatureBytes sig) }

end Signatures

--- Hexadecimal Text

theorem decodeHex32_spec {value label : String} {bytes : Vector UInt8 32}
    (hDecode : decodeHex32 value label = .ok bytes) :
    String.ofList (value.toList.map Char.toLower) = hexString bytes.toList := by
  unfold decodeHex32 at hDecode
  split at hDecode
  · cases hDecode
  rename_i hText
  rw [not_or, not_not] at hText
  rcases bind_eq_ok_iff.mp hDecode with ⟨found, hPairs, hDecode⟩
  split at hDecode
  · rename_i hLength
    unfold digitPairs at hPairs
    split at hPairs
    · rename_i decoded hHex
      cases hPairs
      have hDigits : ∀ byte ∈ Cashaddr.utf8 value.toList, (hexNibble byte).isSome = true := by
        intro byte hMem
        have hAll : (utf8 value).all isAsciiHexdigit = true := by simpa using hText.2
        exact List.all_eq_true.mp hAll byte hMem
      have hEven : (Cashaddr.utf8 value.toList).length % 2 = 0 := by
        have hSize : (Cashaddr.utf8 value.toList).length = 64 := hText.1
        rw [hSize]
      rw [← Except.ok.inj hDecode, lower_of_hexPairs value.toList found hDigits hEven hHex]
      rfl
    · cases hPairs
  · cases hDecode

theorem outpoint_eq_text {input : SignInput} {canonical : P2pInput}
    (hDecodes : Decodes input canonical) :
    outpoint input.prevTxid input.prevIndex = outpointText canonical := by
  unfold outpoint outpointText
  rw [decodeHex32_spec hDecodes.txid, hDecodes.index]

--- Inputs And Outputs

/- What is declared of an input, under its outpoint. -/
def declaration (input : P2pInput) : String × (List UInt8 × UInt64) :=
  (outpointText input, (input.pubkey, input.value))

/- What the inputs that were read come to. -/
structure ReadInputs (consumed : List SignInput) (state : Inputs) : Prop where
  decode : List.Forall₂ Decodes consumed state.canonical
  total_eq : state.total.toNat = total (state.canonical.map (fun input => input.value))
  declared : state.declared = state.canonical.map declaration
  nodup : (state.canonical.map outpointText).Nodup

variable {inputs : List P2pInput}

theorem lookup_declaration {key : String} {found : List UInt8 × UInt64}
    (hLookup : (inputs.map declaration).lookup key = some found) :
    ∃ input ∈ inputs, outpointText input = key ∧ (input.pubkey, input.value) = found := by
  induction inputs with
  | nil => cases hLookup
  | cons input inputs ih =>
    rw [List.map_cons] at hLookup
    unfold declaration at hLookup
    rw [List.lookup_cons] at hLookup
    by_cases hKey : key = outpointText input
    · rw [hKey, beq_self_eq_true] at hLookup
      exact ⟨input, List.mem_cons_self, hKey.symm, Option.some.inj hLookup⟩
    · rw [beq_eq_false_iff_ne.mpr hKey] at hLookup
      rcases ih hLookup with ⟨other, hMem, hOther⟩
      exact ⟨other, List.mem_cons_of_mem _ hMem, hOther⟩

theorem lookup_isSome_of_mem {key : String} (hMem : key ∈ inputs.map outpointText) :
    ((inputs.map declaration).lookup key).isSome = true := by
  induction inputs with
  | nil => cases hMem
  | cons input inputs ih =>
    rw [List.map_cons] at hMem ⊢
    unfold declaration
    rw [List.lookup_cons]
    by_cases hKey : key = outpointText input
    · rw [hKey, beq_self_eq_true]
      rfl
    · rw [beq_eq_false_iff_ne.mpr hKey]
      exact ih ((List.mem_cons.mp hMem).resolve_left hKey)

theorem readInputs_step {consumed : List SignInput} {state next : Inputs} {input : SignInput}
    (hRead : ReadInputs consumed state) (hStep : addInput state input = .ok next) :
    ReadInputs (consumed ++ [input]) next := by
  unfold addInput at hStep
  rcases bind_eq_ok_iff.mp hStep with ⟨txid, hTxid, hStep⟩
  rcases bind_eq_ok_iff.mp hStep with ⟨pubkey, hPubkey, hStep⟩
  split at hStep
  · cases hStep
  rename_i hLength
  rw [not_not] at hLength
  dsimp only at hStep
  split at hStep
  · cases hStep
  rename_i hFresh
  split at hStep
  · cases hStep
  rename_i sum hSum
  cases hStep
  have hDecodes :
      Decodes input
        { prevTxid := txid
          prevIndex := input.prevIndex
          pubkey
          value := input.value } :=
    ⟨hTxid, hPubkey, hLength, rfl, rfl⟩
  have hText := outpoint_eq_text hDecodes
  rw [hText, hRead.declared] at hFresh
  constructor
  · exact List.rel_append hRead.decode (.cons hDecodes .nil)
  · rw [List.map_append, List.map_singleton, total_concat, checkedAdd_eq_some hSum, hRead.total_eq]
  · rw [List.map_append, hRead.declared, hText]
    rfl
  · rw [List.map_append, List.map_singleton, List.nodup_append]
    refine ⟨hRead.nodup, List.nodup_singleton _, ?_⟩
    intro key hMem other hOther hSame
    rw [List.mem_singleton] at hOther
    rw [hSame, hOther] at hMem
    exact hFresh (lookup_isSome_of_mem hMem)

theorem readInputs_of_run {inputs : List SignInput} {state : Inputs}
    (hRun : inputs.foldlM addInput { total := 0, canonical := [], declared := [] } = .ok state) :
    ReadInputs inputs state := by
  have hStart :
      ReadInputs []
        { total := 0
          canonical := []
          declared := [] } :=
    ⟨.nil, rfl, rfl, List.nodup_nil⟩
  exact foldlM_invariant (fun _ _ _ _ hRead hStep => readInputs_step hRead hStep) hStart hRun

structure ReadOutputs (consumed : List SignOutput) (state : Outputs) : Prop where
  decode : List.Forall₂ (DecodesOutput "output script") consumed state.canonical
  total_eq : state.total.toNat = total (state.canonical.map (fun output => output.value))

theorem readOutputs_step {consumed : List SignOutput} {state next : Outputs} {output : SignOutput}
    (hRead : ReadOutputs consumed state) (hStep : addOutput state output = .ok next) :
    ReadOutputs (consumed ++ [output]) next := by
  unfold addOutput at hStep
  rcases bind_eq_ok_iff.mp hStep with ⟨script, hScript, hStep⟩
  split at hStep
  · cases hStep
  split at hStep
  · cases hStep
  rename_i sum hSum
  dsimp only at hStep
  split at hStep
  · cases hStep
  cases hStep
  constructor
  · exact List.rel_append hRead.decode (.cons ⟨hScript, rfl⟩ .nil)
  · rw [List.map_append, List.map_singleton, total_concat, checkedAdd_eq_some hSum, hRead.total_eq]

theorem readOutputs_of_run {outputs : List SignOutput} {state : Outputs}
    (hRun : outputs.foldlM addOutput { total := 0, canonical := [] } = .ok state) :
    ReadOutputs outputs state := by
  have hStart :
      ReadOutputs []
        { total := 0
          canonical := [] } :=
    ⟨.nil, rfl⟩
  exact foldlM_invariant (fun _ _ _ _ hRead hStep => readOutputs_step hRead hStep) hStart hRun

theorem claimed_decode {outputs : List SignOutput} {claimed : List P2pOutput}
    (hMap : outputs.mapM claimedOutput = .ok claimed) :
    List.Forall₂ (DecodesOutput "owned output script") outputs claimed := by
  induction outputs generalizing claimed with
  | nil =>
    cases hMap
    exact .nil
  | cons output outputs ih =>
    rw [List.mapM_cons] at hMap
    rcases bind_eq_ok_iff.mp hMap with ⟨first, hFirst, hMap⟩
    rcases bind_eq_ok_iff.mp hMap with ⟨rest, hRest, hMap⟩
    cases hMap
    unfold claimedOutput at hFirst
    rcases bind_eq_ok_iff.mp hFirst with ⟨script, hScript, hFirst⟩
    cases hFirst
    exact .cons ⟨hScript, rfl⟩ (ih hRest)

--- Templates

theorem checkFee_spec {outputs : List P2pOutput} {fee feerate maxFee : UInt64}
    (hCheck : checkFee inputs outputs fee feerate maxFee = .ok ()) :
    requiredFee inputs outputs feerate ≤ fee.toNat ∧
    fee.toNat ≤ min (requiredFee inputs outputs feerate * 3) maxFee.toNat := by
  unfold checkFee at hCheck
  dsimp only at hCheck
  split at hCheck
  · cases hCheck
  split at hCheck
  · cases hCheck
  split at hCheck
  · cases hCheck
  split at hCheck
  · cases hCheck
  rename_i hMin
  split at hCheck
  · cases hCheck
  rename_i hMax
  rw [not_or] at hMax
  have hCaller := UInt64.le_iff_toNat_le.mp (UInt64.not_lt.mp hMax.2)
  exact ⟨Nat.not_lt.mp hMin, le_min (Nat.not_lt.mp hMax.1) hCaller⟩

/- Outputs that are claimed no more often than they are there. -/
theorem subperm_of_checked {claimed outputs : List P2pOutput}
    (hChecked :
        ¬ (claimed = [] ∨
            claimed.any (fun output => decide (outputs.count output < claimed.count output)) =
              true)) : claimed.Subperm outputs := by
  rw [not_or] at hChecked
  rw [List.subperm_ext_iff]
  intro output hMem
  by_contra hFew
  apply hChecked.2
  rw [List.any_eq_true]
  exact ⟨output, hMem, decide_eq_true (Nat.not_le.mp hFew)⟩

theorem outpoints_nodup (hNodup : (inputs.map outpointText).Nodup) :
    (inputs.map (fun input => (input.prevTxid, input.prevIndex))).Nodup := by
  have hText :
      (inputs.map
          (fun input => (input.prevTxid, input.prevIndex))).map
          (fun pair => hexString pair.1.toList ++ ":" ++ toString pair.2.toNat) =
        inputs.map outpointText := by
    rw [List.map_map]
    rfl
  rw [← hText] at hNodup
  exact hNodup.of_map

/- What is known of a template before it is signed. -/
theorem approved_of_buildTemplate {sha256 : List UInt8 → Vector UInt8 32} {request : Request}
    {template : Template} (hBuild : buildTemplate sha256 request = .ok template) :
    ReadInputs request.inputs template.inputs ∧
    ∃ outputs,
      Approved sha256 request template.inputs.canonical outputs template.tx template.hash
        template.fee := by
  unfold buildTemplate at hBuild
  split at hBuild
  · cases hBuild
  split at hBuild
  · cases hBuild
  split at hBuild
  · cases hBuild
  rcases bind_eq_ok_iff.mp hBuild with ⟨session, hSession, hBuild⟩
  rcases bind_eq_ok_iff.mp hBuild with ⟨transcript, hTranscript, hBuild⟩
  rcases bind_eq_ok_iff.mp hBuild with ⟨expected, hExpected, hBuild⟩
  rcases bind_eq_ok_iff.mp hBuild with ⟨bounds, -, hBuild⟩
  rcases bind_eq_ok_iff.mp hBuild with ⟨inputs, hIns, hBuild⟩
  rcases bind_eq_ok_iff.mp hBuild with ⟨outputs, hOuts, hBuild⟩
  split at hBuild
  · cases hBuild
  rename_i fee hFee
  rcases bind_eq_ok_iff.mp hBuild with ⟨checked, hCheck, hBuild⟩
  rcases bind_eq_ok_iff.mp hBuild with ⟨claimed, hClaimed, hBuild⟩
  split at hBuild
  · cases hBuild
  rename_i hOwned
  rcases bind_eq_ok_iff.mp hBuild with ⟨tx, hTx, hBuild⟩
  dsimp only at hBuild
  split at hBuild
  · cases hBuild
  rename_i hHash
  rw [not_not] at hHash
  cases hBuild
  have hReadIns := readInputs_of_run hIns
  have hReadOuts := readOutputs_of_run hOuts
  have hSub := checkedSub_eq_some hFee
  have hLimits := checkFee_spec hCheck
  have hTotal := inputs.total.toNat_lt
  rw [hReadIns.total_eq] at hSub hTotal
  rw [hReadOuts.total_eq] at hSub
  have hBalance :
      total (inputs.canonical.map (fun input => input.value)) =
        total (outputs.canonical.map (fun output => output.value)) + fee.toNat := by
    omega
  refine
    ⟨hReadIns, outputs.canonical,
      { inputs_decode := hReadIns.decode
        outputs_decode := hReadOuts.decode
        template := hTx
        bound :=
          ⟨session, transcript, hSession, hTranscript,
            hExpected.trans (congrArg Except.ok hHash.symm), rfl⟩
        outpoints := outpoints_nodup hReadIns.nodup
        owned_outputs := ⟨claimed, claimed_decode hClaimed, subperm_of_checked hOwned⟩
        balance := hBalance
        values_lt := hTotal
        fee_ge := hLimits.1
        fee_le := hLimits.2 }⟩

--- Owned Inputs

section Owned

variable {n : Nat} {Point : Type} [AddCommGroup Point] [Module (ZMod n) Point] [DecidableEq Point]
variable {curve : Curve n Point} {sha256 : List UInt8 → Vector UInt8 32}
variable {ripemd160 : List UInt8 → Vector UInt8 20}
variable {hmac : List UInt8 → List UInt8 → Vector UInt8 32} {fuel : Nat}

theorem parsePrivate_ne_zero {privateKey : String} {privateScalar : ZMod n}
    (hParse : parsePrivate privateKey = .ok privateScalar) : privateScalar ≠ 0 := by
  unfold parsePrivate at hParse
  rcases bind_eq_ok_iff.mp hParse with ⟨bytes, -, hParse⟩
  split at hParse
  · split at hParse
    · cases hParse
    · rename_i hNonzero
      rw [← Except.ok.inj hParse]
      exact hNonzero
  · cases hParse

/- The input that has the text of an index. -/
theorem canonical_of_findIdx {inputs : List SignInput} {canonical : List P2pInput}
    (hDecode : List.Forall₂ Decodes inputs canonical) {key : String} {i : Nat}
    (hFind : inputs.findIdx? (fun input => outpoint input.prevTxid input.prevIndex == key) = some i)
      : ∃ input, canonical[i]? = some input ∧ outpointText input = key := by
  rw [List.findIdx?_eq_some_iff_getElem] at hFind
  rcases hFind with ⟨hLt, hText, -⟩
  have hLt' : i < canonical.length := by
    rw [← hDecode.length_eq]
    exact hLt
  have hHere := hDecode.get hLt hLt'
  refine ⟨canonical[i], List.getElem?_eq_getElem hLt', ?_⟩
  rw [beq_iff_eq] at hText
  rw [← hText]
  exact (outpoint_eq_text hHere).symm

/- What the owned inputs that were signed come to. -/
structure SignedOwned (curve : Curve n Point) (sha256 : List UInt8 → Vector UInt8 32)
    (ripemd160 : List UInt8 → Vector UInt8 20) (hmac : List UInt8 → List UInt8 → Vector UInt8 32)
    (fuel : Nat) (inputs : List P2pInput) (tx : FusionTx) (consumed : List OwnedInput)
    (state : Signed) : Prop where
  signed : List.Forall₂ (SignedFor curve sha256 ripemd160 hmac fuel inputs tx) consumed state.2
  keys : state.1 = state.2.map (fun signature => signature.outpoint)
  nodup : state.1.Nodup

theorem signedOwned_step {inputs : List SignInput} {read : Inputs} (hRead : ReadInputs inputs read)
    {tx : FusionTx} {consumed : List OwnedInput} {state next : Signed} {owned : OwnedInput}
    (hSigned : SignedOwned curve sha256 ripemd160 hmac fuel read.canonical tx consumed state)
    (hStep :
        signOwned curve sha256 ripemd160 hmac fuel inputs read.declared tx state owned = .ok next) :
    SignedOwned curve sha256 ripemd160 hmac fuel read.canonical tx (consumed ++ [owned]) next := by
  unfold signOwned at hStep
  dsimp only at hStep
  split at hStep
  · cases hStep
  rename_i hFresh
  split at hStep
  · cases hStep
  rename_i declaredPubkey declaredValue hLookup
  rcases bind_eq_ok_iff.mp hStep with ⟨pubkey, hPubkey, hStep⟩
  rw [mapError_eq_ok_iff] at hPubkey
  split at hStep
  · cases hStep
  rename_i hSamePubkey
  rw [not_not] at hSamePubkey
  split at hStep
  · cases hStep
  rename_i hSameValue
  rw [not_not] at hSameValue
  rcases bind_eq_ok_iff.mp hStep with ⟨privateScalar, hPrivate, hStep⟩
  rw [mapError_eq_ok_iff] at hPrivate
  rcases bind_eq_ok_iff.mp hStep with ⟨derived, hDerived, hStep⟩
  split at hStep
  · cases hStep
  rename_i hOwns
  rw [not_not] at hOwns
  split at hStep
  · cases hStep
  rename_i i hFind
  rcases bind_eq_ok_iff.mp hStep with ⟨digest, hDigest, hStep⟩
  rw [mapError_eq_ok_iff] at hDigest
  rcases bind_eq_ok_iff.mp hStep with ⟨sig, hSig, hStep⟩
  rcases canonical_of_findIdx hRead.decode hFind with ⟨input, hInput, hText⟩
  rw [hRead.declared] at hLookup
  rcases lookup_declaration hLookup with ⟨other, hMem, hOther, hDeclared⟩
  have hSame : other = input :=
    List.inj_on_of_nodup_map hRead.nodup hMem (List.mem_of_getElem? hInput)
      (hOther.trans hText.symm)
  rw [hSame] at hDeclared
  rcases Prod.mk.inj hDeclared with ⟨hKey, hValue⟩
  have hInputKey : pubkey = input.pubkey := by rw [hSamePubkey, hKey]
  have hValid : verify curve sha256 input.pubkey sig digest = .ok true := by
    rw [← hInputKey, ← hOwns, ← (Schnorr.compressed_eq_ok_iff.mp hDerived).2]
    exact Schnorr.sign_verifies (parsePrivate_ne_zero hPrivate) hSig
  cases hStep
  constructor
  · apply List.rel_append hSigned.signed
    refine .cons ?_ .nil
    exact ⟨i, input, privateScalar, derived, digest, sig, hInput,
        hText.symm, hPubkey.trans (congrArg Except.ok hInputKey),
        hSameValue.trans hValue.symm, hPrivate, hDerived,
        hOwns.trans hInputKey, hDigest, hSig, hValid, by rw [hText]⟩
  · rw [List.map_append, List.map_singleton, ← hSigned.keys]
  · rw [List.nodup_append]
    refine ⟨hSigned.nodup, List.nodup_singleton _, ?_⟩
    intro key hMem other hOther hSame
    rw [List.mem_singleton] at hOther
    rw [hSame, hOther] at hMem
    exact hFresh (List.contains_iff_mem.mpr hMem)

/-
  What an answer stands for: a template that was approved, and one signature for each owned input,
  in the order of the request.
-/
def Answers (curve : Curve n Point) (sha256 : List UInt8 → Vector UInt8 32)
    (ripemd160 : List UInt8 → Vector UInt8 20) (hmac : List UInt8 → List UInt8 → Vector UInt8 32)
    (fuel : Nat) (request : Request) (response : Response) : Prop :=
  ∃ inputs outputs tx hash,
    Approved sha256 request inputs outputs tx hash response.fee ∧
      response.protocol = "p2p-v3" ∧
      response.templateHash = hexString hash.toList ∧
      List.Forall₂ (SignedFor curve sha256 ripemd160 hmac fuel inputs tx) request.ownedInputs
        response.signatures ∧
      (response.signatures.map (fun signature => signature.outpoint)).Nodup

theorem answers_of_signP2p {request : Request} {response : Response}
    (hSign : signP2p curve sha256 ripemd160 hmac fuel request = .ok response) :
    Answers curve sha256 ripemd160 hmac fuel request response := by
  unfold signP2p at hSign
  rcases bind_eq_ok_iff.mp hSign with ⟨template, hTemplate, hSign⟩
  rw [mapError_eq_ok_iff] at hTemplate
  rcases bind_eq_ok_iff.mp hSign with ⟨signed, hRun, hSign⟩
  cases hSign
  rcases approved_of_buildTemplate hTemplate with ⟨hRead, outputs, hApproved⟩
  have hStart :
      SignedOwned curve sha256 ripemd160 hmac fuel template.inputs.canonical template.tx []
        ([], []) :=
    ⟨.nil, rfl, List.nodup_nil⟩
  have hAll :=
    foldlM_invariant (fun _ _ _ _ hSigned hStep => signedOwned_step hRead hSigned hStep) hStart hRun
  rw [List.nil_append] at hAll
  refine ⟨_, outputs, _, _, hApproved, rfl, rfl, hAll.signed, ?_⟩
  rw [← hAll.keys]
  exact hAll.nodup

end Owned

/-
  Signatures are answered only for a template that was approved, and where nothing can be approved
  there is an error in their place.
-/
theorem signs_only_approved {n : Nat} {Point : Type} [AddCommGroup Point] [Module (ZMod n) Point]
    [DecidableEq Point] (curve : Curve n Point) (sha256 : List UInt8 → Vector UInt8 32)
    (ripemd160 : List UInt8 → Vector UInt8 20) (hmac : List UInt8 → List UInt8 → Vector UInt8 32)
    (fuel : Nat) (request : Request) :
    (∀ response,
        signP2p curve sha256 ripemd160 hmac fuel request = .ok response →
          Answers curve sha256 ripemd160 hmac fuel request response) ∧
    ((∀ response, ¬ Answers curve sha256 ripemd160 hmac fuel request response) → ∃ fault,
      signP2p curve sha256 ripemd160 hmac fuel request = .error fault) := by
  constructor
  · intro response hSign
    exact answers_of_signP2p hSign
  · intro hNone
    cases hSign : signP2p curve sha256 ripemd160 hmac fuel request with
    | error fault => exact ⟨fault, rfl⟩
    | ok response => exact absurd (answers_of_signP2p hSign) (hNone response)

--- Samples

open Schnorr (sevenEncode sevenPoints sevenSha256)

/- The key is three. -/
def sampleKeyText : String := hexString (sevenEncode ((3 : Nat) : ZMod 7)).toList

/- The txid is written in the upper case where it is owned. -/
def sampleRequest : Request :=
  { protocol := "p2p-v3"
    network := "chipnet"
    session := hexString (List.replicate 32 0x22)
    transcriptHash := hexString (List.replicate 32 0x33)
    templateHash := hexString (Rpa.scalarBytes 5).toList
    inputs :=
      [{ prevTxid := hexString (List.replicate 32 0xaa)
         prevIndex := 1
         pubkey := sampleKeyText
         value := 10000 }]
    outputs :=
      [{ script := "51"
         value := 9550 }]
    ownedInputs :=
      [{ prevTxid := String.ofList (List.replicate 64 'A')
         prevIndex := 1
         pubkey := sampleKeyText
         value := 10000
         privateKey := hexString (Rpa.scalarBytes 3).toList }]
    ownedOutputs :=
      [{ script := "51"
         value := 9550 }]
    feerate := 1000
    maxFee := 1500 }

/- The nonce is two. -/
def sampleHmac (_ _ : List UInt8) : Vector UInt8 32 := Rpa.scalarBytes 2

def sampleRipemd160 (_ : List UInt8) : Vector UInt8 20 := Vector.replicate 20 0

theorem signs_only_approved_sample :
    ∃ response,
    signP2p sevenPoints sevenSha256 sampleRipemd160 sampleHmac 1 sampleRequest = .ok response ∧
      response.fee = 450 ∧
      Answers sevenPoints sevenSha256 sampleRipemd160 sampleHmac 1 sampleRequest response := by
  have hSign :
      ∃ response,
      signP2p sevenPoints sevenSha256 sampleRipemd160 sampleHmac 1 sampleRequest = .ok response ∧
        response.fee = 450 :=
    exists_ok_of_check (by decide +kernel)
  rcases hSign with ⟨response, hSign, hFee⟩
  exact ⟨response, hSign, hFee,
    (signs_only_approved sevenPoints sevenSha256 sampleRipemd160 sampleHmac 1 sampleRequest).1
      response hSign⟩

end P2pSign

end OptnWallet.Fusion
