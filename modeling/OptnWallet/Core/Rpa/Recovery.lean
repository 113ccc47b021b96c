import OptnWallet.Core.Rpa.Agreement
import OptnWallet.Core.Rpa.Scan

/-
  A payment that a sender derives for a cash code is found by the receiver's scan, once, and what
  the scan reports is enough to derive the key that spends it.

  Main declarations:
    * `Rpa.stealthAddress`
    * `Rpa.sharedSecret_comm` and `Rpa.spendingKey_eq_ok`
    * `Rpa.scanTransaction_spec`
    * `Rpa.payment_is_recovered`
-/

--- Keys Of Both Sides

namespace OptnWallet

open StagedUpdate

namespace Rpa

variable (primitives : RpaPrimitives)

/- The bytes are a secret key and those of its public key. -/
def IsKeyPair (privkey : Vector UInt8 32) (pubkey : Vector UInt8 33) : Prop :=
  ∃ key, secretKeyFromSlice primitives privkey = some key ∧ KeyGroup.IsPublicKey pubkey key

/- The keys of the code are those of the receiver. -/
structure Receives (code : Cashcode) (scanPrivate spendPrivate : Vector UInt8 32) : Prop where
  scan : IsKeyPair primitives scanPrivate code.scanPubkey
  spend : IsKeyPair primitives spendPrivate code.spendPubkey

/- What a sender pays that spends the outpoint with the key. The id is kept in the order of the
   wire. -/
def stealthAddress (code : Cashcode) (senderPrivate : Vector UInt8 32) (txid : Vector UInt8 32)
    (vout : UInt32) (network : Network) : Except CliError Address := do
  let secret ←
    sharedSecret primitives senderPrivate code.scanPubkey (hexString txid.toList.reverse) vout
  paymentAddress primitives code.spendPubkey secret network 0

variable {primitives}

theorem scalarFromBytes_eq_ok {privkey : Vector UInt8 32} {key : primitives.curve.SecretKey}
    (hKey : secretKeyFromSlice primitives privkey = some key) :
    scalarFromBytes primitives privkey = .ok key.scalar := by
  have hScalar := KeyGroup.SecretKey.ofScalar_eq_some hKey
  unfold scalarFromBytes
  dsimp only
  rw [← hScalar]
  exact if_pos key.lt

/- The two sides compute one secret. -/
theorem sharedSecret_comm {privkey privkey' : Vector UInt8 32} {pubkey pubkey' : Vector UInt8 33}
    (hOwn : IsKeyPair primitives privkey pubkey) (hOther : IsKeyPair primitives privkey' pubkey')
    (txid : String) (vout : UInt32) :
    sharedSecret primitives privkey pubkey' txid vout =
      sharedSecret primitives privkey' pubkey txid vout := by
  rcases hOwn with ⟨key, hKey, -, hPublic⟩
  rcases hOther with ⟨key', hKey', -, hPublic'⟩
  unfold sharedSecret
  rw [hPublic, hPublic']
  dsimp only
  rw [bind_of_ok (scalarFromBytes_eq_ok hKey), bind_of_ok (scalarFromBytes_eq_ok hKey'),
    KeyGroup.agree key key']

theorem scalarBytes_roundTrip (key : primitives.curve.SecretKey) :
    secretKeyFromSlice primitives (scalarBytes key.scalar) = some key := by
  have hLt : key.scalar < 256 ^ 32 := key.lt.trans_le primitives.curve.order_le
  unfold secretKeyFromSlice
  have hBytes : natOfBytesBE (scalarBytes key.scalar).toList = key.scalar :=
    natOfBytesBE_bytesBE hLt
  rw [hBytes]
  exact KeyGroup.SecretKey.ofScalar_scalar key

/- The private key of a payment is the key of its point. -/
theorem spendingKey_eq_ok {spendPrivkey : Vector UInt8 32} {spendPubkey : Vector UInt8 33}
    {secret : Vector UInt8 32} {index : UInt32} {point : primitives.curve.Point}
    (hSpend : IsKeyPair primitives spendPrivkey spendPubkey)
    (hPoint : paymentPoint primitives spendPubkey secret index = .ok point)
    (hNonzero : point ≠ primitives.curve.zero) :
    ∃ child : primitives.curve.SecretKey,
    spendingKey primitives spendPrivkey secret index = .ok (scalarBytes child.scalar) ∧
      child.publicPoint = point := by
  rcases hSpend with ⟨key, hKey, hEncoded, hDecoded⟩
  unfold paymentPoint at hPoint
  rw [hDecoded] at hPoint
  rcases bind_eq_ok_iff.mp hPoint with ⟨tweak, hTweak, hPoint⟩
  cases hPoint
  rcases KeyGroup.exists_child hNonzero with ⟨child, hChild⟩
  refine ⟨child, ?_, (KeyGroup.publicPoint_add hChild).symm⟩
  unfold spendingKey
  rw [bind_of_ok (scalarFromBytes_eq_ok hKey), hKey]
  dsimp only
  rw [hEncoded, bind_of_ok hTweak, ← hChild, if_neg child.pos.ne']

--- Reports

/- What scanning derives from an input. -/
structure Derives (primitives : RpaPrimitives) (scanPrivkey : Vector UInt8 32)
    (spendPubkey : Vector UInt8 33) (input : ParsedInput) (sender : Vector UInt8 33)
    (secret : Vector UInt8 32) : Prop where
  pubkey : p2pkhInputPubkey input.2.2 = some sender
  secret : sharedSecret primitives scanPrivkey sender input.1 input.2.1 = .ok secret

/-
  Every secret gives a one-time key: its tweak is a scalar and the tweaked key is not zero.
-/
def OneTimeKeysExist (primitives : RpaPrimitives) (scanPrivkey : Vector UInt8 32)
    (spendPubkey : Vector UInt8 33) (inputs : List ParsedInput) : Prop :=
  ∀ input ∈ inputs,
    ∀ sender secret,
      Derives primitives scanPrivkey spendPubkey input sender secret →
        ∃ point,
          paymentPoint primitives spendPubkey secret 0 = .ok point ∧ point ≠ primitives.curve.zero

/- The report is about the output that stands at `position`. -/
structure ReportOf (primitives : RpaPrimitives) (scanPrivkey : Vector UInt8 32)
    (spendPubkey : Vector UInt8 33) (network : Network) (inputs : List ParsedInput)
    (outputs : List DecodedOutput) (report : RpaMatch) (position : Nat) : Prop where
  output :
    ∃ output expected,
    outputs[position]? = some output ∧
      report.value = output.value ∧
      output.scriptPubkey = expected.scriptPubkey ∧
      expected.encode = some report.address ∧
      paymentAddress primitives spendPubkey report.secret network 0 = .ok expected
  index : report.outputIndex = UInt32.ofNat position
  origin :
    ∃ input ∈ inputs,
    ∃ sender,
      Derives primitives scanPrivkey spendPubkey input sender report.secret ∧
        report.prevoutTxid = input.1 ∧
        report.prevoutIndex = input.2.1 ∧
        report.senderPubkeyHex = hexString sender.toList

--- Scans

section Scan

variable {scanPrivkey : Vector UInt8 32} {spendPubkey : Vector UInt8 33} {network : Network}
variable {inputs : List ParsedInput} {outputs : List DecodedOutput}

/- Each report is about one output, and no output has two. -/
structure Scanned (primitives : RpaPrimitives) (scanPrivkey : Vector UInt8 32)
    (spendPubkey : Vector UInt8 33) (network : Network) (inputs : List ParsedInput)
    (outputs : List DecodedOutput) (state : ScanState) : Prop where
  reports :
    List.Forall₂ (ReportOf primitives scanPrivkey spendPubkey network inputs outputs) state.found
      state.seen.reverse
  once : state.seen.Nodup

variable {secret : Vector UInt8 32}

/- A one-time key has an address that can be written. -/
theorem exists_paymentAddress (tables : UnicodeTables) {point : primitives.curve.Point}
    (hPoint : paymentPoint primitives spendPubkey secret 0 = .ok point) (network : Network) :
    ∃ expected text,
    paymentAddress primitives spendPubkey secret network 0 = .ok expected ∧
      expected = pointAddress primitives network point ∧
      expected.encode = some text ∧
      Address.decode tables text = .ok expected := by
  have hEncoded :=
    Address.exists_text tables (pointAddress primitives network point)
      (Network.networkPrefix tables network)
  rcases hEncoded with ⟨text, hEncode, hDecode, -⟩
  refine ⟨_, text, ?_, rfl, hEncode, hDecode⟩
  unfold paymentAddress
  rw [bind_of_ok hPoint]

variable {input : ParsedInput} {state : ScanState}

theorem reportOutput_spec {sender : Vector UInt8 33} {expected : Address} {text : String}
    {output : DecodedOutput} {position : Nat} (hInput : input ∈ inputs)
    (hDerives : Derives primitives scanPrivkey spendPubkey input sender secret)
    (hExpected : paymentAddress primitives spendPubkey secret network 0 = .ok expected)
    (hText : expected.encode = some text) (hOutput : outputs[position]? = some output)
    (hScanned : Scanned primitives scanPrivkey spendPubkey network inputs outputs state) :
    ∃ state',
    reportOutput input sender secret expected state output position = .ok state' ∧
      Scanned primitives scanPrivkey spendPubkey network inputs outputs state' ∧
      state.seen ⊆ state'.seen ∧
      (output.scriptPubkey = expected.scriptPubkey → position ∈ state'.seen) := by
  unfold reportOutput
  split
  · rename_i hPassed
    refine ⟨state, rfl, hScanned, List.Subset.refl _, ?_⟩
    intro hSame
    rcases hPassed with hOther | hSeen
    · exact absurd hSame hOther
    · exact hSeen
  · rename_i hReported
    rw [not_or, not_not] at hReported
    rw [hText]
    refine ⟨_, rfl, ?_, List.subset_cons_self _ _, ?_⟩
    · constructor
      · rw [List.reverse_cons]
        apply List.rel_append hScanned.reports
        refine .cons ?_ .nil
        exact
          { output := ⟨output, expected, hOutput, rfl, hReported.1, hText, hExpected⟩
            index := rfl
            origin := ⟨input, hInput, sender, hDerives, rfl, rfl, rfl⟩ }
      · exact List.nodup_cons.mpr ⟨hReported.2, hScanned.once⟩
    · intro _
      exact List.mem_cons_self

/- Every output with the expected script is reported. -/
theorem reportOutputs_spec {sender : Vector UInt8 33} {expected : Address} {text : String}
    (hInput : input ∈ inputs)
    (hDerives : Derives primitives scanPrivkey spendPubkey input sender secret)
    (hExpected : paymentAddress primitives spendPubkey secret network 0 = .ok expected)
    (hText : expected.encode = some text) {rest : List (DecodedOutput × Nat)}
    (hRest : ∀ output ∈ rest, outputs[output.2]? = some output.1)
    (hScanned : Scanned primitives scanPrivkey spendPubkey network inputs outputs state) :
    ∃ state',
    rest.foldlM
          (fun state output => reportOutput input sender secret expected state output.1 output.2)
          state = .ok state' ∧
      Scanned primitives scanPrivkey spendPubkey network inputs outputs state' ∧
      state.seen ⊆ state'.seen ∧
      ∀ output ∈ rest, output.1.scriptPubkey = expected.scriptPubkey → output.2 ∈ state'.seen := by
  induction rest generalizing state with
  | nil =>
    refine ⟨state, rfl, hScanned, List.Subset.refl _, ?_⟩
    intro output hMem
    cases hMem
  | cons first rest ih =>
    rcases reportOutput_spec hInput hDerives hExpected hText (hRest first List.mem_cons_self)
      hScanned with ⟨next, hNext, hNextScanned, hNextSeen, hFirst⟩
    rcases ih (fun output hMem => hRest output (List.mem_cons_of_mem _ hMem)) hNextScanned with
      ⟨last, hLast, hLastScanned, hLastSeen, hOthers⟩
    refine ⟨last, ?_, hLastScanned, List.Subset.trans hNextSeen hLastSeen, ?_⟩
    · rw [List.foldlM_cons, bind_of_ok hNext]
      exact hLast
    · intro output hMem hSame
      rcases List.mem_cons.mp hMem with rfl | hMem
      · exact hLastSeen (hFirst hSame)
      · exact hOthers output hMem hSame

/- The positions of the outputs that pay what is derived from the input. -/
def Covers (primitives : RpaPrimitives) (scanPrivkey : Vector UInt8 32)
    (spendPubkey : Vector UInt8 33) (network : Network) (outputs : List DecodedOutput)
    (input : ParsedInput) (seen : List Nat) : Prop :=
  ∀ sender secret expected position output,
    Derives primitives scanPrivkey spendPubkey input sender secret →
      paymentAddress primitives spendPubkey secret network 0 = .ok expected →
      outputs[position]? = some output →
      output.scriptPubkey = expected.scriptPubkey →
      position ∈ seen

theorem scanInput_spec (tables : UnicodeTables)
    (hKeys : OneTimeKeysExist primitives scanPrivkey spendPubkey inputs) (hInput : input ∈ inputs)
    (hScanned : Scanned primitives scanPrivkey spendPubkey network inputs outputs state) :
    ∃ state',
    scanInput primitives scanPrivkey spendPubkey network outputs state input = .ok state' ∧
      Scanned primitives scanPrivkey spendPubkey network inputs outputs state' ∧
      state.seen ⊆ state'.seen ∧
      Covers primitives scanPrivkey spendPubkey network outputs input state'.seen := by
  unfold scanInput
  cases hPubkey : p2pkhInputPubkey input.2.2 with
  | none =>
    refine ⟨state, rfl, hScanned, List.Subset.refl _, ?_⟩
    intro sender secret expected position output hDerives
    rw [hDerives.pubkey] at hPubkey
    cases hPubkey
  | some sender =>
    dsimp only
    cases hSecret : sharedSecret primitives scanPrivkey sender input.1 input.2.1 with
    | error error =>
      refine ⟨state, rfl, hScanned, List.Subset.refl _, ?_⟩
      intro other secret expected position output hDerives
      have hSender := hDerives.pubkey
      rw [hPubkey] at hSender
      cases hSender
      have hOk := hDerives.secret
      rw [hSecret] at hOk
      cases hOk
    | ok secret =>
      have hDerives : Derives primitives scanPrivkey spendPubkey input sender secret :=
        ⟨hPubkey, hSecret⟩
      rcases hKeys input hInput sender secret hDerives with ⟨point, hPoint, -⟩
      rcases exists_paymentAddress tables hPoint network with
        ⟨expected, text, hExpected, -, hText, -⟩
      dsimp only
      rw [bind_of_ok
        (show
          (paymentAddress primitives spendPubkey secret network 0).mapError Fault.error =
            .ok expected by rw [hExpected]; rfl)]
      have hRest : ∀ output ∈ outputs.zipIdx, outputs[output.2]? = some output.1 :=
        fun output hMem => List.mem_zipIdx_iff_getElem?.mp hMem
      rcases reportOutputs_spec hInput hDerives hExpected hText hRest hScanned with
        ⟨state', hFold, hScanned', hSeen, hAll⟩
      refine ⟨state', hFold, hScanned', hSeen, ?_⟩
      intro other again address position output hOther hAddress hOutput hSame
      have hSender := hOther.pubkey
      rw [hPubkey] at hSender
      cases hSender
      have hOk := hOther.secret
      rw [hSecret] at hOk
      cases hOk
      rw [hExpected] at hAddress
      cases hAddress
      exact hAll (output, position) (List.mem_zipIdx_iff_getElem?.mpr hOutput) hSame

theorem scanInputs_spec (tables : UnicodeTables)
    (hKeys : OneTimeKeysExist primitives scanPrivkey spendPubkey inputs) {rest : List ParsedInput}
    (hRest : rest ⊆ inputs)
    (hScanned : Scanned primitives scanPrivkey spendPubkey network inputs outputs state) :
    ∃ state',
    rest.foldlM (scanInput primitives scanPrivkey spendPubkey network outputs) state = .ok state' ∧
      Scanned primitives scanPrivkey spendPubkey network inputs outputs state' ∧
      state.seen ⊆ state'.seen ∧
      ∀ input ∈ rest,
        Covers primitives scanPrivkey spendPubkey network outputs input state'.seen := by
  induction rest generalizing state with
  | nil =>
    refine ⟨state, rfl, hScanned, List.Subset.refl _, ?_⟩
    intro input hMem
    cases hMem
  | cons first rest ih =>
    rw [List.cons_subset] at hRest
    rcases scanInput_spec tables hKeys hRest.1 hScanned with
      ⟨next, hNext, hNextScanned, hNextSeen, hFirst⟩
    rcases ih hRest.2 hNextScanned with ⟨last, hLast, hLastScanned, hLastSeen, hOthers⟩
    refine ⟨last, ?_, hLastScanned, List.Subset.trans hNextSeen hLastSeen, ?_⟩
    · rw [List.foldlM_cons, bind_of_ok hNext]
      exact hLast
    · intro input hMem
      rcases List.mem_cons.mp hMem with rfl | hMem
      · intro sender secret expected position output hDerives hExpected hOutput hSame
        exact
          hLastSeen (hFirst sender secret expected position output hDerives hExpected hOutput hSame)
      · exact hOthers input hMem

/- A scan that derives every one-time key reports each output that one of them controls, once. -/
theorem scanTransaction_spec (tables : UnicodeTables) {raw : List UInt8}
    {fields : List ParsedOutput} {decoded : Decoded}
    (hParse : parseTransaction raw = .ok (inputs, fields))
    (hDecode : OptnWallet.decode raw = .ok decoded)
    (hKeys : OneTimeKeysExist primitives scanPrivkey spendPubkey inputs) (network : Network) :
    ∃ found positions,
    scanTransaction primitives raw scanPrivkey spendPubkey network = .ok found ∧
      List.Forall₂ (ReportOf primitives scanPrivkey spendPubkey network inputs decoded.outputs)
        found positions ∧
      positions.Nodup ∧
      ∀ input ∈ inputs,
        Covers primitives scanPrivkey spendPubkey network decoded.outputs input positions := by
  have hStart :
      Scanned primitives scanPrivkey spendPubkey network inputs decoded.outputs
        { seen := []
          found := [] } :=
    ⟨.nil, List.nodup_nil⟩
  rcases scanInputs_spec tables hKeys (List.Subset.refl _) hStart with
    ⟨state, hFold, hScanned, -, hCovers⟩
  refine ⟨state.found, state.seen.reverse, ?_, hScanned.reports,
    List.nodup_reverse.mpr hScanned.once, ?_⟩
  · unfold scanTransaction
    rw [hParse, hDecode]
    exact bind_of_ok hFold _
  · intro input hMem sender secret expected position output hDerives hExpected hOutput hSame
    exact List.mem_reverse.mpr
      (hCovers input hMem sender secret expected position output hDerives hExpected hOutput hSame)

/- A report is enough to sign for the output. -/
theorem signingKeyForReceipt_eq_ok (tables : UnicodeTables) {spendPrivkey : Vector UInt8 32}
    {report : RpaMatch} {position : Nat} (hSpend : IsKeyPair primitives spendPrivkey spendPubkey)
    (hKeys : OneTimeKeysExist primitives scanPrivkey spendPubkey inputs)
    (hIds : ∀ input ∈ inputs, ∃ txid : TxId, input.1 = hexString txid.toList)
    (hReport : ReportOf primitives scanPrivkey spendPubkey network inputs outputs report position) :
    ∃ sender key output,
    hexString sender.toList = report.senderPubkeyHex ∧
      signingKeyForReceipt primitives tables scanPrivkey spendPrivkey report.prevoutTxid
          report.prevoutIndex sender report.address network = .ok key ∧
      outputs[position]? = some output ∧
      (pointAddress primitives network key.publicPoint).scriptPubkey = output.scriptPubkey := by
  rcases hReport.origin with ⟨input, hInput, sender, hDerives, hTxid, hVout, hHex⟩
  rcases hReport.output with ⟨output, expected, hOutput, -, hScript, hText, hExpected⟩
  rcases hKeys input hInput sender report.secret hDerives with ⟨point, hPoint, hNonzero⟩
  rcases exists_paymentAddress tables hPoint network with
    ⟨address, text, hAddress, hPointAddress, hEncode, hDecode⟩
  rw [hExpected] at hAddress
  cases hAddress
  rw [hText] at hEncode
  cases hEncode
  rcases spendingKey_eq_ok hSpend hPoint hNonzero with ⟨key, hKey, hPublic⟩
  rcases hIds input hInput with ⟨txid, hId⟩
  refine ⟨sender, key, output, hHex.symm, ?_, hOutput, ?_⟩
  · have hOrigin :
        Outpoint.parse report.prevoutTxid report.prevoutIndex = .ok
            { txid
              vout := report.prevoutIndex } := by
      rw [hTxid, hId]
      exact Outpoint.parse_hexString txid report.prevoutIndex
    have hSecret :
        sharedSecret primitives scanPrivkey sender report.prevoutTxid report.prevoutIndex =
          .ok report.secret := by
      rw [hTxid, hVout]
      exact hDerives.secret
    have hPrefix : expected.addressPrefix = network.addressPrefix := by
      rw [hPointAddress]
      rfl
    unfold signingKeyForReceipt
    rw [bind_of_ok (mapError_eq_ok_iff.mpr hOrigin), bind_of_ok (mapError_eq_ok_iff.mpr hDecode),
      if_neg (not_not.mpr hPrefix), bind_of_ok (mapError_eq_ok_iff.mpr hSecret),
      bind_of_ok (mapError_eq_ok_iff.mpr hKey), scalarBytes_roundTrip]
    dsimp only
    rw [hPublic, ← hPointAddress, if_neg (not_not.mpr rfl)]
  · rw [hPublic, ← hPointAddress]
    exact hScript.symm

end Scan

--- Recovery

/- The key that the recipe gives controls the address. -/
def RecipeControls (primitives : RpaPrimitives) (tables : UnicodeTables)
    (scanPrivate spendPrivate : Vector UInt8 32) (prevoutTxid : String) (prevoutIndex : UInt32)
    (senderPublic : Vector UInt8 33) (expectedAddress : String) (network : Network)
    (key : primitives.curve.SecretKey) : Prop :=
  ∃ secret bytes address,
    sharedSecret primitives scanPrivate senderPublic prevoutTxid prevoutIndex = .ok secret ∧
      spendingKey primitives spendPrivate secret 0 = .ok bytes ∧
      secretKeyFromSlice primitives bytes = some key ∧
      Address.decode tables expectedAddress = .ok address ∧
      address.addressPrefix = network.addressPrefix ∧
      (pointAddress primitives network key.publicPoint).scriptPubkey = address.scriptPubkey

theorem signingKeyForReceipt_controls {tables : UnicodeTables}
    {scanPrivate spendPrivate : Vector UInt8 32} {prevoutTxid : String} {prevoutIndex : UInt32}
    {senderPublic : Vector UInt8 33} {expectedAddress : String} {network : Network}
    {key : primitives.curve.SecretKey}
    (hKey :
        signingKeyForReceipt primitives tables scanPrivate spendPrivate prevoutTxid prevoutIndex
            senderPublic expectedAddress network = .ok key) :
    RecipeControls primitives tables scanPrivate spendPrivate prevoutTxid prevoutIndex senderPublic
      expectedAddress network key := by
  unfold signingKeyForReceipt at hKey
  rcases bind_eq_ok_iff.mp hKey with ⟨origin, -, hKey⟩
  rcases bind_eq_ok_iff.mp hKey with ⟨address, hAddress, hKey⟩
  split at hKey
  · cases hKey
  rename_i hPrefix
  rcases bind_eq_ok_iff.mp hKey with ⟨secret, hSecret, hKey⟩
  rcases bind_eq_ok_iff.mp hKey with ⟨bytes, hBytes, hKey⟩
  split at hKey
  · cases hKey
  rename_i child hChild
  dsimp only at hKey
  split at hKey
  · cases hKey
  rename_i hScript
  cases hKey
  exact ⟨secret, bytes, address, mapError_eq_ok_iff.mp hSecret, mapError_eq_ok_iff.mp hBytes,
    hChild, mapError_eq_ok_iff.mp hAddress, not_not.mp hPrefix, not_not.mp hScript⟩

/- Only the text of the address can make it panic. -/
theorem signingKeyForReceipt_panics {tables : UnicodeTables}
    {scanPrivate spendPrivate : Vector UInt8 32} {prevoutTxid : String} {prevoutIndex : UInt32}
    {senderPublic : Vector UInt8 33} {expectedAddress : String} {network : Network}
    (hPanic :
        signingKeyForReceipt primitives tables scanPrivate spendPrivate prevoutTxid prevoutIndex
            senderPublic expectedAddress network = .error .panic) :
    Address.decode tables expectedAddress = .error .panic := by
  unfold signingKeyForReceipt at hPanic
  cases hOrigin : Outpoint.parse prevoutTxid prevoutIndex with
  | error error =>
    rw [hOrigin] at hPanic
    cases hPanic
  | ok origin =>
    rw [bind_of_ok (mapError_eq_ok_iff.mpr hOrigin)] at hPanic
    cases hAddress : Address.decode tables expectedAddress with
    | error failure =>
      rw [hAddress] at hPanic
      cases failure with
      | error message => cases hPanic
      | panic => rfl
    | ok address =>
      rw [bind_of_ok (mapError_eq_ok_iff.mpr hAddress)] at hPanic
      split at hPanic
      · cases hPanic
      cases hSecret : sharedSecret primitives scanPrivate senderPublic prevoutTxid prevoutIndex with
      | error error =>
        rw [hSecret] at hPanic
        cases hPanic
      | ok secret =>
        rw [bind_of_ok (mapError_eq_ok_iff.mpr hSecret)] at hPanic
        cases hBytes : spendingKey primitives spendPrivate secret 0 with
        | error error =>
          rw [hBytes] at hPanic
          cases hPanic
        | ok bytes =>
          rw [bind_of_ok (mapError_eq_ok_iff.mpr hBytes)] at hPanic
          split at hPanic
          · cases hPanic
          · dsimp only at hPanic
            split at hPanic
            · cases hPanic
            · cases hPanic

/-
  Every payment to the code is reported once and can be spent with what is reported.  A recipe
  whose key does not control the address gives no key.
-/
theorem payment_is_recovered (primitives : RpaPrimitives) (tables : UnicodeTables) :
    (∀ (code : Cashcode) (scanPrivate spendPrivate : Vector UInt8 32)
          (senderPrivate : Vector UInt8 32) (senderPublic : Vector UInt8 33) (raw : RawTransaction)
          (decoded : Decoded) (input : RawInput) (address : Address)
          (senderNetwork network : Network) (position : Nat) (output : DecodedOutput),
        Receives primitives code scanPrivate spendPrivate →
          IsKeyPair primitives senderPrivate senderPublic →
          raw.InRange →
          OptnWallet.decode raw.bytes = .ok decoded →
          input ∈ raw.inputs →
          p2pkhInputPubkey input.scriptSig = some senderPublic →
          stealthAddress primitives code senderPrivate input.txid input.vout senderNetwork =
            .ok address →
          decoded.outputs[position]? = some output →
          output.scriptPubkey = address.scriptPubkey →
          OneTimeKeysExist primitives scanPrivate code.spendPubkey (raw.inputs.map RawInput.parsed)
            →
          ∃ (found : List RpaMatch) (positions : List Nat) (place : Nat) (report : RpaMatch)
              (sender : Vector UInt8 33) (key : primitives.curve.SecretKey),
            scanTransaction primitives raw.bytes scanPrivate code.spendPubkey network = .ok found ∧
              List.Forall₂
                (ReportOf primitives scanPrivate code.spendPubkey network
                  (raw.inputs.map RawInput.parsed) decoded.outputs) found positions ∧
              positions.Nodup ∧
              found[place]? = some report ∧
              positions[place]? = some position ∧
              hexString sender.toList = report.senderPubkeyHex ∧
              signingKeyForReceipt primitives tables scanPrivate spendPrivate report.prevoutTxid
                  report.prevoutIndex sender report.address network = .ok key ∧
              (pointAddress primitives network key.publicPoint).scriptPubkey = output.scriptPubkey)
      ∧
    (∀ (scanPrivate spendPrivate : Vector UInt8 32) (prevoutTxid : String) (prevoutIndex : UInt32)
        (senderPublic : Vector UInt8 33) (expectedAddress : String) (network : Network),
      (∀ key,
            ¬ RecipeControls primitives tables scanPrivate spendPrivate prevoutTxid prevoutIndex
              senderPublic expectedAddress network key) →
        ∃ failure,
          signingKeyForReceipt primitives tables scanPrivate spendPrivate prevoutTxid prevoutIndex
                senderPublic expectedAddress network = .error failure ∧
            (failure = .panic → Address.decode tables expectedAddress = .error .panic)) := by
  constructor
  · intro code scanPrivate spendPrivate senderPrivate senderPublic raw decoded input address
      senderNetwork network position output hCode hSender hRange hDecode hInput hPubkey hStealth
      hOutput hScript hKeys
    have hParse :
        parseTransaction raw.bytes =
          .ok (raw.inputs.map RawInput.parsed, raw.outputs.map RawOutput.parsed) :=
      parseTransaction_eq_ok_iff.mpr ⟨raw, hRange, rfl, rfl, rfl⟩
    have hParsed : input.parsed ∈ raw.inputs.map RawInput.parsed := List.mem_map_of_mem hInput
    rcases bind_eq_ok_iff.mp hStealth with ⟨secret, hSecret, hAddress⟩
    rw [sharedSecret_comm hSender hCode.scan] at hSecret
    have hDerives :
        Derives primitives scanPrivate code.spendPubkey input.parsed senderPublic secret :=
      ⟨hPubkey, hSecret⟩
    rcases hKeys input.parsed hParsed senderPublic secret hDerives with ⟨point, hPoint, -⟩
    rcases exists_paymentAddress tables hPoint network with
      ⟨expected, -, hExpected, hPointAddress, -, -⟩
    rcases scanTransaction_spec tables hParse hDecode hKeys network with
      ⟨found, positions, hFound, hReports, hNodup, hCovers⟩
    have hSame : output.scriptPubkey = expected.scriptPubkey := by
      rcases exists_paymentAddress tables hPoint senderNetwork with
        ⟨paid, -, hPaid, hPaidPoint, -, -⟩
      rw [hPaid] at hAddress
      cases hAddress
      rw [hScript, hPaidPoint, hPointAddress]
      rfl
    have hPosition : position ∈ positions :=
      hCovers input.parsed hParsed senderPublic secret expected position output hDerives hExpected
        hOutput hSame
    rcases List.mem_iff_getElem?.mp hPosition with ⟨place, hPlace⟩
    have hBound : place < found.length := by
      rw [hReports.length_eq]
      exact (List.getElem?_eq_some_iff.mp hPlace).1
    have hReport : found[place]? = some found[place] := List.getElem?_eq_getElem hBound
    have hOf :
        ReportOf primitives scanPrivate code.spendPubkey network (raw.inputs.map RawInput.parsed)
          decoded.outputs found[place] position := by
      rcases List.getElem?_eq_some_iff.mp hPlace with ⟨hWithin, hAt⟩
      have hHere := hReports.get hBound hWithin
      rw [List.get_eq_getElem, List.get_eq_getElem, hAt] at hHere
      exact hHere
    have hIds :
        ∀ other ∈ raw.inputs.map RawInput.parsed,
        ∃ txid : TxId, other.1 = hexString txid.toList := by
      intro other hOther
      rcases List.mem_map.mp hOther with ⟨source, -, rfl⟩
      refine ⟨source.txid.reverse, ?_⟩
      rw [Vector.toList_reverse]
      rfl
    rcases signingKeyForReceipt_eq_ok tables hCode.spend hKeys hIds hOf with
      ⟨sender, key, paid, hHex, hKey, hPaid, hControls⟩
    rw [hOutput] at hPaid
    cases hPaid
    exact ⟨found, positions, place, found[place], sender, key, hFound, hReports, hNodup, hReport,
      hPlace, hHex, hKey, hControls⟩
  · intro scanPrivate spendPrivate prevoutTxid prevoutIndex senderPublic expectedAddress network
      hControls
    cases hResult : signingKeyForReceipt primitives tables scanPrivate spendPrivate prevoutTxid
      prevoutIndex senderPublic expectedAddress network with
    | error failure =>
      refine ⟨failure, rfl, ?_⟩
      rintro rfl
      exact signingKeyForReceipt_panics hResult
    | ok key => exact absurd (signingKeyForReceipt_controls hResult) (hControls key)

--- A Payment On The Test Network

/- The bytes of a number, the highest first. -/
def fixedBytes (count value : Nat) : Vector UInt8 count :=
  ⟨(bytesBE value count).toArray, by
    simp [bytesBE, length_bytesLE]⟩

/- An encoding that no curve uses. -/
def taggedPoint (point : Nat) : Vector UInt8 33 :=
  ⟨(4 :: bytesBE point 32).toArray, by
    simp [bytesBE, length_bytesLE]⟩

def untaggedPoint (bytes : Vector UInt8 33) : Option Nat :=
  if bytes.toList.head? = some 4 then some (natOfBytesBE bytes.toList.tail)
  else none

theorem unambiguous_tagged {table : KeyGroup.Table} {order : Nat} (hOrder : order ≤ 2 ^ 256)
    (hEntries : ∀ entry ∈ table, table.find? (fun other => other.2 = entry.2) = some entry)
    (hTags : ∀ entry ∈ table, entry.2.toList.head? ≠ some 4) :
    table.Unambiguous order taggedPoint untaggedPoint where
  entries := hEntries
  fresh := by
    intro point _ entry hMem hSame
    apply hTags entry hMem
    rw [hSame]
    rfl
  roundTrip := by
    intro point hPoint
    have hLt : point < 256 ^ 32 := hPoint.trans_le hOrder
    have hBytes : natOfBytesBE (taggedPoint point).toList.tail = point := natOfBytesBE_bytesBE hLt
    unfold untaggedPoint
    rw [hBytes]
    exact if_pos rfl

/- The order of the curve. -/
def curveOrder : Nat := 0xfffffffffffffffffffffffffffffffebaaedce6af48a03bbfd25e8cd0364141

/- Public keys of small scalars, and of one payment. -/
def curveTable : KeyGroup.Table :=
  [(21, fixedBytes 33 0x02352bbf4a4cdd12564f93fa332ce333301d9ad40271f8107181340aef25be59d5),
    (22, fixedBytes 33 0x03421f5fc9a21065445c96fdb91c0c1e2f2431741c72713b4b99ddcb316f31e9fc),
    (23, fixedBytes 33 0x032fa2104d6b38d11b0230010559879124e42ab8dfeff5ff29dc9cdadd4ecacc3f),
    (24, fixedBytes 33 0x03fe72c435413d33d48ac09c9161ba8b09683215439d62b7940502bda8b202e6ce),
    (483, fixedBytes 33 0x03ebaf57645bed74699b57ea758a395a9066bae20a8f082ab6da4554d5278be83b),
    (0x911ff2ea3310bbec6a47c449c6f503d69a3f1a12fb20e64b9fc59e7faacf955a,
      fixedBytes 33 0x020382c453a552cf66971a7cf8d13731ce3c744032fc78517e530d67ab68cf955f)]

theorem curveTable_unambiguous : curveTable.Unambiguous curveOrder taggedPoint untaggedPoint :=
  unambiguous_tagged (by decide) (by decide +kernel) (by decide +kernel)

def sampleCurve : KeyGroup :=
  KeyGroup.ofTable curveOrder curveTable taggedPoint
    untaggedPoint (by decide) (by decide)
    curveTable_unambiguous

/- The digests of the payment; any other is not used. -/
def sampleSha256 (bytes : List UInt8) : Vector UInt8 32 :=
  if bytes = bytesBE 0xebaf57645bed74699b57ea758a395a9066bae20a8f082ab6da4554d5278be83b 33
  then fixedBytes 32 0x498fad2345625779320c7c060ffb2ca4d956e6fdda45b9f0cf585a8922df737a
  else if
    bytes = Cashaddr.utf8 "1f1e1d1c1b1a191817161514131211100f0e0d0c0b0a090807060504030201007".toList
  then fixedBytes 32 0xdd3b6091743b80f9d684c0db3dc74177396fc529dcaee24e967a8b31e6d7eaf9
  else if bytes = bytesBE 0x126cb0db4b99dd87308913ce14dc26e1c12c6ac27b6f49c3f65d2e5bb09b75e73 33
  then fixedBytes 32 0x15f2c0e5c378ff28029d745888e66376dfc7ed7929932710fbbffa0fbd4420dd
  else if bytes = bytesBE 0x020382c453a552cf66971a7cf8d13731ce3c744032fc78517e530d67ab68cf955f 33
  then fixedBytes 32 0x6c42053409de76040de0db30887391aa0a715a3d9b91cbad260bb3bb596fb08f
  else fixedBytes 32 0

def sampleRipemd160 (_ : List UInt8) : Vector UInt8 20 :=
  fixedBytes 20 0x91dfabbde801f5e1391365a5ed6a7b223a91a338

/- Keyed with another secret the left half is no scalar. -/
def sampleHmacSha512 (key _ : List UInt8) : Vector UInt8 64 :=
  if key = bytesBE 0x15f2c0e5c378ff28029d745888e66376dfc7ed7929932710fbbffa0fbd4420dd 32
  then fixedBytes 64
      0x911ff2ea3310bbec6a47c449c6f503d69a3f1a12fb20e64b9fc59e7faacf954470776b9946e3213d2abb5970c102fbc4733f3a5c0fed6f3640a4d90f7b11ba18
  else Vector.replicate 64 0xff

def samplePrimitives : RpaPrimitives :=
  { curve := sampleCurve
    sha256 := sampleSha256
    ripemd160 := sampleRipemd160
    hmacSha512 := sampleHmacSha512
    curveError := "crypto error" }

/- The public key of a scalar of the table. -/
def samplePublic (scalar : Nat) : Vector UInt8 33 := curveTable.encode taggedPoint scalar

def sampleCode : Cashcode :=
  { version := 0x05
    prefixBits := 16
    scanPubkey := samplePublic 21
    spendPubkey := samplePublic 22
    expiry := 0
    codePrefix := "cashcodetest" }

/- An input that reveals a key behind a signature. -/
def sampleInput (scalar firstByte : Nat) : RawInput :=
  { txid := Vector.ofFn (fun i => UInt8.ofNat (firstByte + i))
    vout := 7
    scriptSig := [1, 0x41, 33] ++ (samplePublic scalar).toList
    sequence := 0xffffffff }

/- What the code is paid. -/
def samplePaid : Address :=
  { kind := .p2pkh
    hash := fixedBytes 20 0x91dfabbde801f5e1391365a5ed6a7b223a91a338
    addressPrefix := "bchtest" }

def sampleTransaction (inputs : List RawInput) : RawTransaction :=
  { version := 2
    inputs
    outputs := [{ value := 50000, field := samplePaid.scriptPubkey }]
    locktime := 0 }

def sampleDecoded (inputs : List RawInput) : Decoded :=
  { version := 2
    inputs := inputs.map RawInput.decoded
    outputs := [{ value := 50000, scriptPubkey := samplePaid.scriptPubkey, token := none }]
    locktime := 0 }

theorem sample_isKeyPair {scalar : Nat} (hPos : 0 < scalar) (hLt : scalar < curveOrder) :
    IsKeyPair samplePrimitives (scalarBytes scalar) (samplePublic scalar) := by
  let key : samplePrimitives.curve.SecretKey := { scalar, pos := hPos, lt := hLt }
  exact ⟨key, scalarBytes_roundTrip key, KeyGroup.isPublicKey_ofTable curveTable_unambiguous key⟩

theorem sample_receives :
    Receives samplePrimitives sampleCode (scalarBytes 21) (scalarBytes 22) where
  scan := sample_isKeyPair (by decide) (by decide)
  spend := sample_isKeyPair (by decide) (by decide)

theorem sample_inRange : (sampleTransaction [sampleInput 23 0]).InRange where
  input_count := by
    change 1 < 2 ^ 64
    decide
  inputs := by
    intro input hMem
    rcases List.mem_singleton.mp hMem with rfl
    change (sampleInput 23 0).scriptSig.length < 2 ^ 64
    decide +kernel
  output_count := by
    change 1 < 2 ^ 64
    decide
  outputs := by
    intro output hMem
    rcases List.mem_singleton.mp hMem with rfl
    change samplePaid.scriptPubkey.length < 2 ^ 64
    decide +kernel

def sampleSecret : Vector UInt8 32 :=
  fixedBytes 32 0x15f2c0e5c378ff28029d745888e66376dfc7ed7929932710fbbffa0fbd4420dd

theorem sample_keys :
    OneTimeKeysExist samplePrimitives (scalarBytes 21) sampleCode.spendPubkey
      ([sampleInput 23 0].map RawInput.parsed) := by
  have hPubkey : p2pkhInputPubkey (sampleInput 23 0).parsed.2.2 = some (samplePublic 23) := by
    decide +kernel
  have hSecret :
      sharedSecret samplePrimitives (scalarBytes 21) (samplePublic 23) (sampleInput 23 0).parsed.1
          (sampleInput 23 0).parsed.2.1 = .ok sampleSecret := by
    decide +kernel
  have hTweak :
      scalarFromBytes samplePrimitives
          (ckdTweak samplePrimitives sampleSecret sampleCode.spendPubkey.toList 0) =
        .ok 0x911ff2ea3310bbec6a47c449c6f503d69a3f1a12fb20e64b9fc59e7faacf9544 := by
    decide +kernel
  rcases sample_receives.spend with ⟨key, hKey, -, hDecoded⟩
  have hScalar : key.scalar = 22 := by
    rw [KeyGroup.SecretKey.ofScalar_eq_some hKey]
    decide +kernel
  intro input hInput sender secret hDerives
  rcases List.mem_singleton.mp hInput with rfl
  have hSender := hDerives.pubkey
  rw [hPubkey] at hSender
  cases hSender
  have hOk := hDerives.secret
  rw [hSecret] at hOk
  cases hOk
  refine ⟨samplePrimitives.curve.add key.publicPoint
      (samplePrimitives.curve.mul 0x911ff2ea3310bbec6a47c449c6f503d69a3f1a12fb20e64b9fc59e7faacf9544
        samplePrimitives.curve.generator), ?_, ?_⟩
  · unfold paymentPoint
    rw [hDecoded]
    exact bind_of_ok hTweak _
  · unfold KeyGroup.SecretKey.publicPoint
    rw [samplePrimitives.curve.add_mul, hScalar]
    apply samplePrimitives.curve.mul_ne_zero
    · decide +kernel
    · decide +kernel

/-
  The payment is received.  On the main network no key controls the address.
-/
theorem payment_is_recovered_sample :
    (∃ (found : List RpaMatch) (positions : List Nat) (place : Nat) (report : RpaMatch)
          (sender : Vector UInt8 33) (key : samplePrimitives.curve.SecretKey),
        scanTransaction samplePrimitives (sampleTransaction [sampleInput 23 0]).bytes
              (scalarBytes 21) sampleCode.spendPubkey .chipnet = .ok found ∧
          List.Forall₂
            (ReportOf samplePrimitives (scalarBytes 21) sampleCode.spendPubkey .chipnet
              ([sampleInput 23 0].map RawInput.parsed) (sampleDecoded [sampleInput 23 0]).outputs)
            found positions ∧
          positions.Nodup ∧
          found[place]? = some report ∧
          positions[place]? = some 0 ∧
          hexString sender.toList = report.senderPubkeyHex ∧
          signingKeyForReceipt samplePrimitives Address.caselessTables (scalarBytes 21)
              (scalarBytes 22) report.prevoutTxid report.prevoutIndex sender report.address .chipnet
              = .ok key ∧
          (pointAddress samplePrimitives .chipnet key.publicPoint).scriptPubkey =
            samplePaid.scriptPubkey) ∧
    ∃ failure,
      signingKeyForReceipt samplePrimitives Address.caselessTables (scalarBytes 21) (scalarBytes 22)
            (sampleInput 23 0).parsed.1 7 (samplePublic 23) (samplePaid.encode.getD "") .mainnet =
          .error failure ∧
        (failure = .panic →
          Address.decode Address.caselessTables (samplePaid.encode.getD "") = .error .panic) := by
  constructor
  · exact (payment_is_recovered samplePrimitives Address.caselessTables).1
        sampleCode (scalarBytes 21) (scalarBytes 22)
        (scalarBytes 23) (samplePublic 23)
        (sampleTransaction [sampleInput 23 0])
        (sampleDecoded [sampleInput 23 0]) (sampleInput 23 0)
        samplePaid .chipnet .chipnet 0
        { value := 50000, scriptPubkey := samplePaid.scriptPubkey, token := none }
        sample_receives
        (sample_isKeyPair (by decide) (by decide))
        sample_inRange (by decide +kernel)
        List.mem_cons_self (by decide +kernel)
        (by decide +kernel) rfl rfl sample_keys
  · apply (payment_is_recovered samplePrimitives Address.caselessTables).2
    rintro key ⟨secret, bytes, address, -, -, -, hAddress, hPrefix, -⟩
    rcases Address.exists_text Address.caselessTables samplePaid (Network.networkPrefix _ .chipnet)
      with ⟨text, hText, hDecode, -⟩
    rw [hText, Option.getD_some, hDecode] at hAddress
    cases hAddress
    revert hPrefix
    decide

/-
  Another input of the transaction gives a secret whose tweak is no scalar, and the scan ends with
  an error.
-/
theorem foreign_input_ends_scan :
    Receives samplePrimitives sampleCode (scalarBytes 21) (scalarBytes 22) ∧
    IsKeyPair samplePrimitives (scalarBytes 23) (samplePublic 23) ∧
    OptnWallet.decode (sampleTransaction [sampleInput 23 0, sampleInput 24 100]).bytes =
      .ok (sampleDecoded [sampleInput 23 0, sampleInput 24 100]) ∧
    p2pkhInputPubkey (sampleInput 23 0).scriptSig = some (samplePublic 23) ∧
    stealthAddress samplePrimitives sampleCode (scalarBytes 23) (sampleInput 23 0).txid
        (sampleInput 23 0).vout .chipnet = .ok samplePaid ∧
    (sampleDecoded [sampleInput 23 0, sampleInput 24 100]).outputs.map DecodedOutput.scriptPubkey =
      [samplePaid.scriptPubkey] ∧
    scanTransaction samplePrimitives
        (sampleTransaction [sampleInput 23 0, sampleInput 24 100]).bytes (scalarBytes 21)
        sampleCode.spendPubkey .chipnet = .error (.error (.usage "private key is out of range")) :=
  ⟨sample_receives, sample_isKeyPair (by decide) (by decide),
    by decide +kernel, by decide +kernel, by decide +kernel, rfl, by decide +kernel⟩

end Rpa

end OptnWallet
