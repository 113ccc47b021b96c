import OptnWallet.Fusion.P2pComponent
import OptnWallet.Nostr.ComponentV4

/-
  The two encoders of components.  They agree where each text is pairs of digits and the index has
  32 bits, and there the bytes tell components apart.  A larger index is cut by the one encoder
  and refused by the other.

  Main declarations:
    * `Nostr.ComponentArgs`
    * `Nostr.component_encoders_agree_iff`
-/

--- Readers of Text

namespace OptnWallet

open StagedUpdate

namespace Nostr

open Fusion.P2pComponent
  (Request Response encodeComponentForP2p hexDecode hexDecode_of_hexText hexDecode_eq_ok_iff
    hexToBytes_eq_ok_iff maxPubkey maxScript requestComponent requestInput requestOutput required
    requireLen requireLen_of_length saltCommitmentLen txidLen)

/- The length of text where it is stored. -/
def utf16Length (text : String) : Nat :=
  (text.toList.map (fun c => if c.toNat < 0x10000 then 1 else 2)).sum

/-
  What is relied on of the reader: the displayed text of bytes is read as these bytes, and every
  text has one byte for each two of its units, and one for a unit that is left.
-/
structure ReadsHex (hexToBin : String → List UInt8) : Prop where
  displayed : ∀ bytes, hexToBin (hexString bytes) = bytes
  length : ∀ text, (hexToBin text).length = (utf16Length text + 1) / 2

theorem length_le_utf16Length (text : String) : text.length ≤ utf16Length text := by
  have hAll :
      ∀ chars : List Char,
        chars.length ≤ (chars.map (fun c => if c.toNat < 0x10000 then 1 else 2)).sum := by
    intro chars
    induction chars with
    | nil => exact le_refl 0
    | cons c chars ih =>
      rw [List.length_cons, List.map_cons, List.sum_cons]
      split
      · omega
      · omega
  rw [← String.length_toList]
  exact hAll text.toList

theorem length_toLowerCase (text : String) : (toLowerCase text).length = text.length := by
  unfold toLowerCase
  rw [String.length_ofList, List.length_map, String.length_toList]

variable {hexToBin : String → List UInt8} {text : String} {bytes : List UInt8}

theorem read_of_hexText (hReads : ReadsHex hexToBin) (hText : HexText text bytes) :
    hexToBin (toLowerCase text) = bytes := by
  have hLower := hReads.displayed bytes
  rw [← hText.lower] at hLower
  exact hLower

theorem trim_sublist (text : String) : (Text.trim text).toList.Sublist text.toList := by
  unfold Text.trim
  rw [String.toList_ofList]
  have hInner :=
    (List.dropWhile_suffix Text.isWhitespace
      (l := (text.toList.dropWhile Text.isWhitespace).reverse)).sublist.reverse
  rw [List.reverse_reverse] at hInner
  exact hInner.trans (List.dropWhile_suffix Text.isWhitespace).sublist

/- Text that is read the same by both readers is not trimmed. -/
theorem hexText_of_decode (hReads : ReadsHex hexToBin) {field : String}
    (hDecode : hexDecode text field = .ok (hexToBin (toLowerCase text))) :
    HexText text (hexToBin (toLowerCase text)) := by
  have hTrimmed := hexDecode_eq_ok_iff.mp hDecode
  have hShort := hTrimmed.length
  have hLong := length_le_utf16Length (toLowerCase text)
  rw [length_toLowerCase] at hLong
  rw [hReads.length] at hShort
  have hSublist := trim_sublist text
  have hSame : Text.trim text = text := by
    apply String.toList_inj.mp
    apply hSublist.eq_of_length_le
    rw [String.length_toList, String.length_toList]
    omega
  rw [hSame] at hTrimmed
  exact hTrimmed

--- Components of Either Kind

inductive ComponentArgs where
  | input (args : InputArgs)
  | output (args : OutputArgs)
deriving DecidableEq

variable (hexToBin) in
def encodeComponent : ComponentArgs → Except String (List UInt8)
  | .input args => encodeInputComponent hexToBin args
  | .output args => encodeOutputComponent hexToBin args

/- The fields of a component, with its text as bytes. -/
inductive ComponentFields where
  | input (salt txid pubkey : List UInt8) (index amount : Int)
  | output (salt script : List UInt8) (amount : Int)
deriving DecidableEq

variable (hexToBin) in
def ComponentArgs.fields : ComponentArgs → ComponentFields
  | .input args => .input (hexToBin (toLowerCase args.saltCommitmentHex))
      (hexToBin (toLowerCase args.prevTxidDisplayHex)) (hexToBin (toLowerCase args.pubkeyHex))
      args.prevIndex args.amount
  | .output args =>
    .output (hexToBin (toLowerCase args.saltCommitmentHex)) (hexToBin (toLowerCase args.scriptHex))
      args.amount

/- A number that is read as an unsigned one, if it fits. -/
def toU32 (number : Int) : Option UInt32 :=
  if 0 ≤ number ∧ number < 2 ^ 32 then some (UInt32.ofNat number.toNat)
  else none

def toU64 (number : Int) : Option UInt64 :=
  if 0 ≤ number ∧ number < 2 ^ 64 then some (UInt64.ofNat number.toNat)
  else none

/- The request with the same fields, if its numbers fit. -/
def ComponentArgs.request : ComponentArgs → Option Request
  | .input args => do
      let prevIndex ← toU32 args.prevIndex
      let amount ← toU64 args.amount
      some
        { kind := "input"
          saltCommitment := args.saltCommitmentHex
          prevTxid := some args.prevTxidDisplayHex
          prevIndex := some prevIndex
          pubkey := some args.pubkeyHex
          script := none
          amount := some amount }
  | .output args => do
      let amount ← toU64 args.amount
      some
        { kind := "output"
          saltCommitment := args.saltCommitmentHex
          prevTxid := none
          prevIndex := none
          pubkey := none
          script := some args.scriptHex
          amount := some amount }

/- The bytes that a player commits to for the same fields and the same salt commitment. -/
def ComponentArgs.committed : ComponentArgs → Except String (List UInt8)
  | .input args => do
      let txid ← Fusion.hexToBytes args.prevTxidDisplayHex
      let pubkey ← Fusion.hexToBytes args.pubkeyHex
      let salt ← Fusion.hexToBytes args.saltCommitmentHex
      let input : Fusion.FusionInput :=
        { prevTxid := args.prevTxidDisplayHex
          prevIndex := UInt32.ofNat args.prevIndex.toNat
          pubkey
          value := UInt64.ofNat args.amount.toNat }
      .ok (Fusion.Schema.components.encodeToVec
          { Fusion.inputComponent input txid with saltCommitment := salt })
  | .output args => do
      let script ← Fusion.hexToBytes args.scriptHex
      let salt ← Fusion.hexToBytes args.saltCommitmentHex
      let output : Fusion.FusionOutput :=
        { scriptpubkey := script, value := UInt64.ofNat args.amount.toNat }
      .ok (Fusion.Schema.components.encodeToVec
          { Fusion.outputComponent output with saltCommitment := salt })

/- The other encoder accepts the fields and gives the same bytes, which are those that are committed
   to. -/
structure Agrees (sha256 : List UInt8 → Vector UInt8 32) (args : ComponentArgs)
    (bytes : List UInt8) : Prop where
  encoded :
    ∃ request response,
    args.request = some request ∧
      encodeComponentForP2p Fusion.Schema.components sha256 request = .ok response ∧
      response.componentHex = hexString bytes
  committed : args.committed = .ok bytes

/- Other fields have other bytes. -/
def ToldApart (hexToBin : String → List UInt8) (args others : ComponentArgs)
    (bytes otherBytes : List UInt8) : Prop :=
  args.fields hexToBin ≠ others.fields hexToBin → bytes ≠ otherBytes

def IsHex (text : String) : Prop := ∃ bytes, HexText text bytes

/- Pairs of digits, and an index of 32 bits. -/
def ComponentArgs.Plain : ComponentArgs → Prop
  | .input args => IsHex args.saltCommitmentHex ∧ IsHex args.prevTxidDisplayHex ∧
      IsHex args.pubkeyHex ∧ args.prevIndex < 2 ^ 32
  | .output args => IsHex args.saltCommitmentHex ∧ IsHex args.scriptHex

--- Equal Bytes

theorem encodeComponent_injective : Function.Injective Fusion.Schema.encodeComponent := by
  intro component other hSame
  have hLeft := Fusion.Schema.components_roundTrips component
  have hRight := Fusion.Schema.components_roundTrips other
  change Fusion.Schema.components.decode (Fusion.Schema.encodeComponent component) =
    .ok component at hLeft
  change Fusion.Schema.components.decode (Fusion.Schema.encodeComponent other) = .ok other at hRight
  rw [hSame, hRight] at hLeft
  exact (Except.ok.inj hLeft).symm

theorem hexString_injective : Function.Injective hexString := by
  intro bytes others hSame
  have hLeft := (hexText_hexString bytes).pairs
  rw [hSame, (hexText_hexString others).pairs] at hLeft
  exact (Option.some.inj hLeft).symm

variable {index : Int}

theorem toU32_of_lt (hNonneg : 0 ≤ index) (hLt : index < 2 ^ 32) :
    toU32 index = some (UInt32.ofNat index.toNat) := by
  unfold toU32
  exact if_pos ⟨hNonneg, hLt⟩

theorem toU64_of_safe {amount : Int} (hSafe : isSafeInteger amount = true) (hNonneg : 0 ≤ amount) :
    toU64 amount = some (UInt64.ofNat amount.toNat) := by
  have hLt := lt_of_isSafeInteger hSafe
  unfold toU64
  exact if_pos ⟨hNonneg, by omega⟩

--- Plain Components Agree

variable (sha256 : List UInt8 → Vector UInt8 32)

/- The response that carries the bytes. -/
def responseOf (bytes : List UInt8) : Response :=
  { protocol := "p2p-v4-ec-component"
    componentHex := hexString bytes
    blindMessageHex := hexString (sha256 bytes).toList }

def InputArgs.asRequest (args : InputArgs) : Request :=
  { kind := "input"
    saltCommitment := args.saltCommitmentHex
    prevTxid := some args.prevTxidDisplayHex
    prevIndex := some (UInt32.ofNat args.prevIndex.toNat)
    pubkey := some args.pubkeyHex
    script := none
    amount := some (UInt64.ofNat args.amount.toNat) }

def OutputArgs.asRequest (args : OutputArgs) : Request :=
  { kind := "output"
    saltCommitment := args.saltCommitmentHex
    prevTxid := none
    prevIndex := none
    pubkey := none
    script := some args.scriptHex
    amount := some (UInt64.ofNat args.amount.toNat) }

theorem requestComponent_input (args : InputArgs) (salt : List UInt8) :
    requestComponent Fusion.Schema.components args.asRequest salt =
      requestInput Fusion.Schema.components args.asRequest salt := if_pos rfl

theorem requestComponent_output (args : OutputArgs) (salt : List UInt8) :
    requestComponent Fusion.Schema.components args.asRequest salt =
      requestOutput Fusion.Schema.components args.asRequest salt := by
  have hKind : ¬ args.asRequest.kind = "input" := by
    change ¬ "output" = "input"
    decide
  unfold requestComponent
  rw [if_neg hKind]
  exact if_pos rfl

variable {args : InputArgs}

theorem request_of_input (hAccepts : AcceptsInput hexToBin args)
    (hIndex : args.prevIndex < 2 ^ 32) :
    (ComponentArgs.input args).request = some args.asRequest := by
  unfold ComponentArgs.request
  dsimp only
  rw [toU32_of_lt hAccepts.index_nonneg hIndex,
    toU64_of_safe hAccepts.amount_safe hAccepts.amount_nonneg]
  rfl

theorem request_of_output {args : OutputArgs} (hAccepts : AcceptsOutput hexToBin args) :
    (ComponentArgs.output args).request = some args.asRequest := by
  unfold ComponentArgs.request
  dsimp only
  rw [toU64_of_safe hAccepts.amount_safe hAccepts.amount_nonneg]
  rfl

theorem requestInput_of_plain (hReads : ReadsHex hexToBin) (hAccepts : AcceptsInput hexToBin args)
    (hPlain : (ComponentArgs.input args).Plain) :
    requestInput Fusion.Schema.components args.asRequest
        (hexToBin (toLowerCase args.saltCommitmentHex)) =
      .ok (Fusion.Schema.encodeComponent (inputComponent hexToBin args)) := by
  rcases hPlain with ⟨-, ⟨txid, hTxidText⟩, ⟨pubkey, hPubkeyText⟩, -⟩
  have hTxidRead := read_of_hexText hReads hTxidText
  have hPubkeyRead := read_of_hexText hReads hPubkeyText
  have hTxidLength := hAccepts.txid
  have hPubkeyPos := hAccepts.pubkey_pos
  have hPubkeyLe := hAccepts.pubkey_le
  rw [hTxidRead] at hTxidLength
  rw [hPubkeyRead] at hPubkeyPos hPubkeyLe
  have hDisplayed : requireLen txid txidLen "prevTxid" = .ok () := requireLen_of_length hTxidLength
  have hWire : requireLen txid.reverse txidLen "prev_txid" = .ok () :=
    requireLen_of_length ((List.length_reverse).trans hTxidLength)
  have hSalt :
      requireLen (hexToBin (toLowerCase args.saltCommitmentHex)) saltCommitmentLen "salt_commitment"
          = .ok () :=
    requireLen_of_length hAccepts.salt
  have hPubkeyNe : pubkey ≠ [] := by
    intro hNil
    rw [hNil] at hPubkeyPos
    cases hPubkeyPos
  unfold requestInput required InputArgs.asRequest
  dsimp only
  rw [bind_of_ok rfl, bind_of_ok (hexDecode_of_hexText hTxidText),
    bind_of_ok hDisplayed, bind_of_ok rfl, bind_of_ok rfl,
    bind_of_ok (hexDecode_of_hexText hPubkeyText), bind_of_ok rfl]
  have hBounds : ¬ (pubkey = [] ∨ maxPubkey < pubkey.length) :=
    not_or.mpr ⟨hPubkeyNe, not_lt.mpr hPubkeyLe⟩
  unfold Fusion.P2pComponent.encodeInputComponent
  rw [bind_of_ok hWire, bind_of_ok hSalt, if_neg hBounds]
  unfold inputComponent
  rw [hTxidRead, hPubkeyRead]
  rfl

theorem requestOutput_of_plain (hReads : ReadsHex hexToBin) {args : OutputArgs}
    (hAccepts : AcceptsOutput hexToBin args) (hPlain : (ComponentArgs.output args).Plain) :
    requestOutput Fusion.Schema.components args.asRequest
        (hexToBin (toLowerCase args.saltCommitmentHex)) =
      .ok (Fusion.Schema.encodeComponent (outputComponent hexToBin args)) := by
  rcases hPlain with ⟨-, ⟨script, hScriptText⟩⟩
  have hScriptRead := read_of_hexText hReads hScriptText
  have hScriptPos := hAccepts.script_pos
  have hScriptLe := hAccepts.script_le
  rw [hScriptRead] at hScriptPos hScriptLe
  have hSalt :
      requireLen (hexToBin (toLowerCase args.saltCommitmentHex)) saltCommitmentLen "salt_commitment"
          = .ok () :=
    requireLen_of_length hAccepts.salt
  have hScriptNe : script ≠ [] := by
    intro hNil
    rw [hNil] at hScriptPos
    cases hScriptPos
  unfold requestOutput required OutputArgs.asRequest
  dsimp only
  rw [bind_of_ok rfl, bind_of_ok (hexDecode_of_hexText hScriptText), bind_of_ok rfl]
  have hBounds : ¬ (script = [] ∨ maxScript < script.length) :=
    not_or.mpr ⟨hScriptNe, not_lt.mpr hScriptLe⟩
  unfold Fusion.P2pComponent.encodeOutputComponent
  rw [bind_of_ok hSalt, if_neg hBounds]
  unfold outputComponent
  rw [hScriptRead]
  rfl

theorem input_agrees_of_plain (hReads : ReadsHex hexToBin)
    (hEncode : encodeInputComponent hexToBin args = .ok bytes)
    (hPlain : (ComponentArgs.input args).Plain) : Agrees sha256 (.input args) bytes := by
  rcases (encodeInputComponent_eq_ok_iff hexToBin).mp hEncode with ⟨hAccepts, rfl⟩
  have hInner := requestInput_of_plain hReads hAccepts hPlain
  rcases hPlain with ⟨⟨salt, hSaltText⟩, ⟨txid, hTxidText⟩, ⟨pubkey, hPubkeyText⟩, hIndex⟩
  have hSaltRead := read_of_hexText hReads hSaltText
  rw [hSaltRead] at hInner
  constructor
  · refine ⟨args.asRequest, responseOf sha256 _, request_of_input hAccepts hIndex, ?_, rfl⟩
    have hSalt : hexDecode args.asRequest.saltCommitment "saltCommitment" = .ok salt :=
      hexDecode_of_hexText hSaltText
    rw [← requestComponent_input] at hInner
    unfold encodeComponentForP2p
    rw [bind_of_ok hSalt, bind_of_ok hInner]
    rfl
  · unfold ComponentArgs.committed
    dsimp only
    rw [bind_of_ok (hexToBytes_eq_ok_iff.mpr hTxidText),
      bind_of_ok (hexToBytes_eq_ok_iff.mpr hPubkeyText),
      bind_of_ok (hexToBytes_eq_ok_iff.mpr hSaltText)]
    unfold inputComponent
    rw [read_of_hexText hReads hTxidText, read_of_hexText hReads hPubkeyText, hSaltRead]
    rfl

theorem output_agrees_of_plain (hReads : ReadsHex hexToBin) {args : OutputArgs}
    (hEncode : encodeOutputComponent hexToBin args = .ok bytes)
    (hPlain : (ComponentArgs.output args).Plain) : Agrees sha256 (.output args) bytes := by
  rcases (encodeOutputComponent_eq_ok_iff hexToBin).mp hEncode with ⟨hAccepts, rfl⟩
  have hInner := requestOutput_of_plain hReads hAccepts hPlain
  rcases hPlain with ⟨⟨salt, hSaltText⟩, ⟨script, hScriptText⟩⟩
  have hSaltRead := read_of_hexText hReads hSaltText
  rw [hSaltRead] at hInner
  constructor
  · refine ⟨args.asRequest, responseOf sha256 _, request_of_output hAccepts, ?_, rfl⟩
    have hSalt : hexDecode args.asRequest.saltCommitment "saltCommitment" = .ok salt :=
      hexDecode_of_hexText hSaltText
    rw [← requestComponent_output] at hInner
    unfold encodeComponentForP2p
    rw [bind_of_ok hSalt, bind_of_ok hInner]
    rfl
  · unfold ComponentArgs.committed
    dsimp only
    rw [bind_of_ok (hexToBytes_eq_ok_iff.mpr hScriptText),
      bind_of_ok (hexToBytes_eq_ok_iff.mpr hSaltText)]
    unfold outputComponent
    rw [read_of_hexText hReads hScriptText, hSaltRead]
    rfl

--- Components That Agree Are Plain

variable {request : Request}

theorem requestInput_spec {salt : List UInt8}
    (hInput : requestInput Fusion.Schema.components request salt = .ok bytes) :
    ∃ txidText txid pubkeyText pubkey prevIndex amount,
      request.prevTxid = some txidText ∧ hexDecode txidText "prevTxid" = .ok txid ∧
        request.pubkey = some pubkeyText ∧
        hexDecode pubkeyText "pubkey" = .ok pubkey ∧
        bytes = Fusion.Schema.encodeComponent
            { saltCommitment := salt
              component :=
                some (.input { prevTxid := txid.reverse, prevIndex, pubkey, amount }) } := by
  have hField :
      ∀ {α : Type} {field : Option α} {missing : String} {value : α},
      required field missing = .ok value → field = some value := by
    intro α field missing value hRequired
    cases field with
    | none => cases hRequired
    | some found =>
      cases hRequired
      rfl
  unfold requestInput at hInput
  rw [bind_eq_ok_iff] at hInput
  rcases hInput with ⟨txidText, hTxidText, hInput⟩
  rw [bind_eq_ok_iff] at hInput
  rcases hInput with ⟨txid, hTxid, hInput⟩
  rw [bind_eq_ok_iff] at hInput
  rcases hInput with ⟨-, -, hInput⟩
  rw [bind_eq_ok_iff] at hInput
  rcases hInput with ⟨prevIndex, -, hInput⟩
  rw [bind_eq_ok_iff] at hInput
  rcases hInput with ⟨pubkeyText, hPubkeyText, hInput⟩
  rw [bind_eq_ok_iff] at hInput
  rcases hInput with ⟨pubkey, hPubkey, hInput⟩
  rw [bind_eq_ok_iff] at hInput
  rcases hInput with ⟨amount, -, hInput⟩
  unfold Fusion.P2pComponent.encodeInputComponent at hInput
  rw [bind_eq_ok_iff] at hInput
  rcases hInput with ⟨-, -, hInput⟩
  rw [bind_eq_ok_iff] at hInput
  rcases hInput with ⟨-, -, hInput⟩
  split at hInput
  · cases hInput
  · exact ⟨txidText, txid, pubkeyText, pubkey, prevIndex, amount, hField hTxidText, hTxid,
      hField hPubkeyText, hPubkey, (Except.ok.inj hInput).symm⟩

theorem requestOutput_spec {salt : List UInt8}
    (hOutput : requestOutput Fusion.Schema.components request salt = .ok bytes) :
    ∃ scriptText script amount,
      request.script = some scriptText ∧ hexDecode scriptText "script" = .ok script ∧
        bytes = Fusion.Schema.encodeComponent
            { saltCommitment := salt
              component := some (.output { scriptpubkey := script, amount }) } := by
  unfold requestOutput at hOutput
  rw [bind_eq_ok_iff] at hOutput
  rcases hOutput with ⟨scriptText, hScriptText, hOutput⟩
  rw [bind_eq_ok_iff] at hOutput
  rcases hOutput with ⟨script, hScript, hOutput⟩
  rw [bind_eq_ok_iff] at hOutput
  rcases hOutput with ⟨amount, -, hOutput⟩
  have hField : request.script = some scriptText := by
    unfold required at hScriptText
    split at hScriptText
    · rename_i found hFound
      cases hScriptText
      exact hFound
    · cases hScriptText
  unfold Fusion.P2pComponent.encodeOutputComponent at hOutput
  rw [bind_eq_ok_iff] at hOutput
  rcases hOutput with ⟨-, -, hOutput⟩
  split at hOutput
  · cases hOutput
  · exact ⟨scriptText, script, amount, hField, hScript, (Except.ok.inj hOutput).symm⟩

/- The bytes of a response come from the salt that was decoded, and from the part of the kind. -/
theorem encodeComponentForP2p_spec {response : Response}
    (hEncode : encodeComponentForP2p Fusion.Schema.components sha256 request = .ok response)
    (hBytes : response.componentHex = hexString bytes) :
    ∃ salt,
    hexDecode request.saltCommitment "saltCommitment" = .ok salt ∧
      requestComponent Fusion.Schema.components request salt = .ok bytes := by
  unfold encodeComponentForP2p at hEncode
  rw [bind_eq_ok_iff] at hEncode
  rcases hEncode with ⟨salt, hSalt, hEncode⟩
  rw [bind_eq_ok_iff] at hEncode
  rcases hEncode with ⟨componentSer, hComponent, hEncode⟩
  cases hEncode
  rw [← hexString_injective hBytes]
  exact ⟨salt, hSalt, hComponent⟩

theorem toU32_eq_some {found : UInt32} (hRead : toU32 index = some found) : index < 2 ^ 32 := by
  unfold toU32 at hRead
  split at hRead
  · rename_i hRange
    exact hRange.2
  · cases hRead

theorem input_plain_of_agrees (hReads : ReadsHex hexToBin)
    (hEncode : encodeInputComponent hexToBin args = .ok bytes)
    (hAgrees : Agrees sha256 (.input args) bytes) : (ComponentArgs.input args).Plain := by
  rcases (encodeInputComponent_eq_ok_iff hexToBin).mp hEncode with ⟨hAccepts, rfl⟩
  rcases hAgrees.encoded with ⟨request, response, hRequest, hResponse, hBytes⟩
  have hIndexLt : args.prevIndex < 2 ^ 32 := by
    cases hIndex : toU32 args.prevIndex with
    | none =>
      unfold ComponentArgs.request at hRequest
      dsimp only at hRequest
      rw [hIndex] at hRequest
      cases hRequest
    | some prevIndex => exact toU32_eq_some hIndex
  rw [request_of_input hAccepts hIndexLt] at hRequest
  cases hRequest
  rcases encodeComponentForP2p_spec sha256 hResponse hBytes with ⟨salt, hSalt, hPart⟩
  rw [requestComponent_input] at hPart
  rcases requestInput_spec hPart with
    ⟨txidText, txid, pubkeyText, pubkey, found, amount, hTxidText, hTxid, hPubkeyText, hPubkey,
      hSame⟩
  have hComponent := encodeComponent_injective hSame
  unfold inputComponent at hComponent
  cases hTxidText
  cases hPubkeyText
  injection hComponent with hSaltSame hPartSame
  injection hPartSame with hInputSame
  injection hInputSame with hFields
  injection hFields with hTxidSame _ hPubkeySame _
  rw [← hSaltSame] at hSalt
  rw [← List.reverse_injective hTxidSame] at hTxid
  rw [← hPubkeySame] at hPubkey
  exact ⟨⟨_, hexText_of_decode hReads hSalt⟩, ⟨_, hexText_of_decode hReads hTxid⟩,
    ⟨_, hexText_of_decode hReads hPubkey⟩, hIndexLt⟩

theorem output_plain_of_agrees (hReads : ReadsHex hexToBin) {args : OutputArgs}
    (hEncode : encodeOutputComponent hexToBin args = .ok bytes)
    (hAgrees : Agrees sha256 (.output args) bytes) : (ComponentArgs.output args).Plain := by
  rcases (encodeOutputComponent_eq_ok_iff hexToBin).mp hEncode with ⟨hAccepts, rfl⟩
  rcases hAgrees.encoded with ⟨request, response, hRequest, hResponse, hBytes⟩
  rw [request_of_output hAccepts] at hRequest
  cases hRequest
  rcases encodeComponentForP2p_spec sha256 hResponse hBytes with ⟨salt, hSalt, hPart⟩
  rw [requestComponent_output] at hPart
  rcases requestOutput_spec hPart with ⟨scriptText, script, amount, hScriptText, hScript, hSame⟩
  have hComponent := encodeComponent_injective hSame
  unfold outputComponent at hComponent
  cases hScriptText
  injection hComponent with hSaltSame hPartSame
  injection hPartSame with hOutputSame
  injection hOutputSame with hFields
  injection hFields with hScriptSame _
  rw [← hSaltSame] at hSalt
  rw [← hScriptSame] at hScript
  exact ⟨⟨_, hexText_of_decode hReads hSalt⟩, ⟨_, hexText_of_decode hReads hScript⟩⟩

--- Agreement

/- Small numbers are not cut. -/
theorem index_eq_of_cut {other : Int} (hNonneg : 0 ≤ index) (hLt : index < 2 ^ 32)
    (hOtherNonneg : 0 ≤ other) (hOtherLt : other < 2 ^ 32)
    (hSame : UInt32.ofNat index.toNat = UInt32.ofNat other.toNat) : index = other := by
  have hNat := congrArg UInt32.toNat hSame
  rw [UInt32.toNat_ofNat_of_lt' (show _ < 2 ^ 32 by omega),
    UInt32.toNat_ofNat_of_lt' (show _ < 2 ^ 32 by omega)]
    at hNat
  omega

theorem amount_eq_of_cut {amount other : Int} (hSafe : isSafeInteger amount = true)
    (hNonneg : 0 ≤ amount) (hOtherSafe : isSafeInteger other = true) (hOtherNonneg : 0 ≤ other)
    (hSame : UInt64.ofNat amount.toNat = UInt64.ofNat other.toNat) : amount = other := by
  have hLt := lt_of_isSafeInteger hSafe
  have hOtherLt := lt_of_isSafeInteger hOtherSafe
  have hNat := congrArg UInt64.toNat hSame
  rw [UInt64.toNat_ofNat_of_lt' (lt_trans hLt (by decide)),
    UInt64.toNat_ofNat_of_lt' (lt_trans hOtherLt (by decide))]
    at hNat
  omega

/- Plain components with equal bytes have equal fields.  The kinds are compared first. -/
theorem toldApart_of_plain {args others : ComponentArgs} {otherBytes : List UInt8}
    (hEncode : encodeComponent hexToBin args = .ok bytes)
    (hOther : encodeComponent hexToBin others = .ok otherBytes) (hPlain : args.Plain)
    (hOtherPlain : others.Plain) : ToldApart hexToBin args others bytes otherBytes := by
  intro hDiffer hSame
  apply hDiffer
  subst hSame
  cases args with
  | input args =>
    rcases (encodeInputComponent_eq_ok_iff hexToBin).mp hEncode with ⟨hAccepts, rfl⟩
    cases others with
    | input others =>
      rcases (encodeInputComponent_eq_ok_iff hexToBin).mp hOther with ⟨hOtherAccepts, hSame⟩
      have hComponent := encodeComponent_injective hSame
      unfold inputComponent at hComponent
      injection hComponent with hSalt hPart
      injection hPart with hInput
      injection hInput with hFields
      injection hFields with hTxid hIndex hPubkey hAmount
      have hIndexSame :=
        index_eq_of_cut hAccepts.index_nonneg hPlain.2.2.2 hOtherAccepts.index_nonneg
          hOtherPlain.2.2.2 hIndex
      have hAmountSame :=
        amount_eq_of_cut hAccepts.amount_safe hAccepts.amount_nonneg hOtherAccepts.amount_safe
          hOtherAccepts.amount_nonneg hAmount
      unfold ComponentArgs.fields
      dsimp only
      rw [hSalt, List.reverse_injective hTxid, hPubkey, hIndexSame, hAmountSame]
    | output others =>
      rcases (encodeOutputComponent_eq_ok_iff hexToBin).mp hOther with ⟨-, hSame⟩
      have hComponent := encodeComponent_injective hSame
      unfold inputComponent outputComponent at hComponent
      injection hComponent with _ hPart
      injection hPart with hKinds
      cases hKinds
  | output args =>
    rcases (encodeOutputComponent_eq_ok_iff hexToBin).mp hEncode with ⟨hAccepts, rfl⟩
    cases others with
    | input others =>
      rcases (encodeInputComponent_eq_ok_iff hexToBin).mp hOther with ⟨-, hSame⟩
      have hComponent := encodeComponent_injective hSame
      unfold inputComponent outputComponent at hComponent
      injection hComponent with _ hPart
      injection hPart with hKinds
      cases hKinds
    | output others =>
      rcases (encodeOutputComponent_eq_ok_iff hexToBin).mp hOther with ⟨hOtherAccepts, hSame⟩
      have hComponent := encodeComponent_injective hSame
      unfold outputComponent at hComponent
      injection hComponent with hSalt hPart
      injection hPart with hOutput
      injection hOutput with hFields
      injection hFields with hScript hAmount
      have hAmountSame :=
        amount_eq_of_cut hAccepts.amount_safe hAccepts.amount_nonneg hOtherAccepts.amount_safe
          hOtherAccepts.amount_nonneg hAmount
      unfold ComponentArgs.fields
      dsimp only
      rw [hSalt, hScript, hAmountSame]

theorem agrees_iff_plain (hReads : ReadsHex hexToBin) {args : ComponentArgs}
    (hEncode : encodeComponent hexToBin args = .ok bytes) :
    Agrees sha256 args bytes ↔ args.Plain := by
  cases args with
  | input args =>
    exact ⟨input_plain_of_agrees sha256 hReads hEncode, input_agrees_of_plain sha256 hReads hEncode⟩
  | output args =>
    exact
      ⟨output_plain_of_agrees sha256 hReads hEncode, output_agrees_of_plain sha256 hReads hEncode⟩

/-
  For two components that the one encoder accepts, the other encoder gives the same bytes, and the
  bytes tell them apart, exactly when both are plain.
-/
theorem component_encoders_agree_iff (hexToBin : String → List UInt8)
    (sha256 : List UInt8 → Vector UInt8 32) (hReads : ReadsHex hexToBin)
    (args others : ComponentArgs) (bytes otherBytes : List UInt8)
    (hEncode : encodeComponent hexToBin args = .ok bytes)
    (hOther : encodeComponent hexToBin others = .ok otherBytes) :
    (Agrees sha256 args bytes ∧ Agrees sha256 others otherBytes ∧
        ToldApart hexToBin args others bytes otherBytes) ↔
    args.Plain ∧ others.Plain := by
  rw [agrees_iff_plain sha256 hReads hEncode, agrees_iff_plain sha256 hReads hOther]
  constructor
  · intro hAll
    exact ⟨hAll.1, hAll.2.1⟩
  · intro hPlain
    exact ⟨hPlain.1, hPlain.2, toldApart_of_plain hEncode hOther hPlain.1 hPlain.2⟩

--- Samples

/- A reader that reads anything but pairs of digits as zeros. -/
def sampleHexToBin (text : String) : List UInt8 :=
  match Fusion.hexToBytes text with
  | .ok bytes => bytes
  | .error _ => List.replicate ((utf16Length text + 1) / 2) 0

theorem utf16Length_of_hexText (hText : HexText text bytes) :
    utf16Length text = 2 * bytes.length := by
  have hOnes :
      text.toList.map (fun c => if c.toNat < 0x10000 then 1 else 2) =
        List.replicate text.toList.length 1 := by
    rw [List.eq_replicate_iff]
    constructor
    · rw [List.length_map]
    · intro count hMem
      rcases List.mem_map.mp hMem with ⟨c, hChar, rfl⟩
      have hAscii := (hText.digit c hChar).1
      exact if_pos (by omega)
  unfold utf16Length
  rw [hOnes, String.length_toList, hText.length]
  simp

theorem sampleHexToBin_reads : ReadsHex sampleHexToBin := by
  constructor
  · intro bytes
    unfold sampleHexToBin
    rw [hexToBytes_eq_ok_iff.mpr (hexText_hexString bytes)]
  · intro text
    unfold sampleHexToBin
    cases hRead : Fusion.hexToBytes text with
    | ok bytes =>
      have hText := hexToBytes_eq_ok_iff.mp hRead
      rw [utf16Length_of_hexText hText]
      dsimp only
      omega
    | error e => exact List.length_replicate

def sampleSha256 (_ : List UInt8) : Vector UInt8 32 := Vector.replicate 32 7

def sampleInputArgs (index : Int) : InputArgs :=
  { prevTxidDisplayHex := String.ofList (List.replicate 64 'a')
    prevIndex := index
    pubkeyHex := String.ofList ('0' :: '2' :: List.replicate 64 '1')
    amount := 100000
    saltCommitmentHex := String.ofList (List.replicate 64 '3') }

def sampleInputBytes : List UInt8 :=
  Fusion.Schema.encodeComponent (inputComponent sampleHexToBin (sampleInputArgs 0))

/- The index 2^32 is written as zero, and no index of 32 bits is that number. -/
theorem large_index_is_cut :
    encodeComponent sampleHexToBin (.input (sampleInputArgs 0)) = .ok sampleInputBytes ∧
    encodeComponent sampleHexToBin (.input (sampleInputArgs (2 ^ 32))) = .ok sampleInputBytes ∧
    ¬ ToldApart sampleHexToBin (.input (sampleInputArgs 0)) (.input (sampleInputArgs (2 ^ 32)))
      sampleInputBytes sampleInputBytes ∧
    ¬ Agrees sampleSha256 (.input (sampleInputArgs (2 ^ 32))) sampleInputBytes := by
  refine ⟨?_, ?_, ?_, ?_⟩
  · decide +kernel
  · decide +kernel
  · intro hApart
    exact hApart (by decide +kernel) rfl
  · intro hAgrees
    rcases hAgrees.encoded with ⟨request, response, hRequest, -⟩
    cases hRequest

theorem component_encoders_agree_sample :
    (Agrees sampleSha256 (.input (sampleInputArgs 0)) sampleInputBytes ∧
        Agrees sampleSha256 (.input (sampleInputArgs 0)) sampleInputBytes ∧
        ToldApart sampleHexToBin (.input (sampleInputArgs 0)) (.input (sampleInputArgs 0))
          sampleInputBytes sampleInputBytes) ↔
    (ComponentArgs.input (sampleInputArgs 0)).Plain ∧
      (ComponentArgs.input (sampleInputArgs 0)).Plain :=
  component_encoders_agree_iff sampleHexToBin sampleSha256
    sampleHexToBin_reads (.input (sampleInputArgs 0))
    (.input (sampleInputArgs 0)) sampleInputBytes
    sampleInputBytes (by decide +kernel) (by decide +kernel)

end Nostr

end OptnWallet
