import OptnWallet.Core.Cashaddr.RoundTrip
import OptnWallet.Core.Multisig.Descriptors
import OptnWallet.MultisigCore.Derivation

/-
  The two derivations of multisig addresses agree, up to the number of keys whose script one of
  them still accepts and the other does not.

  Main declarations:
    * `MultisigCore.convertBits_eq`
    * `MultisigCore.encodeCashaddr_eq`
    * `MultisigCore.Agrees`
    * `MultisigCore.agrees_iff`
-/

--- Digits

namespace OptnWallet.MultisigCore

open StagedUpdate

theorem ite_xor (c generator : UInt64) (p : Prop) [Decidable p] :
    (if p then c ^^^ generator else c) = c ^^^ (if p then generator else 0) := by
  by_cases hP : p
  · rw [if_pos hP, if_pos hP]
  · rw [if_neg hP, if_neg hP, UInt64.xor_zero]

/- The symbol may be added before the generators or after them. -/
theorem polymodStep_eq (c : UInt64) (value : UInt8) :
    polymodStep c value = Cashaddr.polymodShift c ^^^ value.toUInt64 := by
  unfold polymodStep Cashaddr.polymodShift
  simp only [ite_xor]
  ac_rfl

theorem cashaddrPolymod_eq (values : List UInt8) :
    cashaddrPolymod values = Cashaddr.polymod values := by
  unfold cashaddrPolymod Cashaddr.polymod
  rw [funext (fun c => funext (polymodStep_eq c))]

/- A conversion in words holds what the buffer holds. -/
structure Follows (state : Conversion) (buffer : Cashaddr.BitBuffer) : Prop where
  accumulator : state.accumulator.toNat = buffer.acc
  bits : state.bits.toNat = buffer.bits
  converted : state.converted = buffer.out

variable {maxValue : UInt32}

theorem toUInt8_mask {word : UInt32} {width : Nat} (hMax : maxValue.toNat = 2 ^ width - 1) :
    (word &&& maxValue).toUInt8 = UInt8.ofNat (word.toNat % 2 ^ width) := by
  apply UInt8.toNat_inj.mp
  rw [UInt32.toNat_toUInt8, UInt32.toNat_and, hMax, Nat.and_two_pow_sub_one_eq_mod,
    UInt8.toNat_ofNat']

/- One group at a time.  By induction over the fuel. -/
theorem follows_emitGroups {toBits : UInt32} (hMax : maxValue.toNat = 2 ^ toBits.toNat - 1)
    (fuel : Nat) (state : Conversion) (buffer : Cashaddr.BitBuffer)
    (hFollows : Follows state buffer) (hBits : state.bits.toNat < 32) :
    Follows (emitGroups toBits maxValue fuel state)
      { acc := buffer.acc
        bits := (Cashaddr.drainGroups toBits.toNat buffer.acc fuel buffer.bits buffer.out).1
        out := (Cashaddr.drainGroups toBits.toNat buffer.acc fuel buffer.bits buffer.out).2 } := by
  induction fuel generalizing state buffer with
  | zero => exact hFollows
  | succ fuel ih =>
    unfold emitGroups Cashaddr.drainGroups
    by_cases hLe : toBits ≤ state.bits
    · have hNat : toBits.toNat ≤ buffer.bits := by
        rw [← hFollows.bits]
        exact UInt32.le_iff_toNat_le.mp hLe
      have hSub : (state.bits - toBits).toNat = buffer.bits - toBits.toNat := by
        rw [UInt32.toNat_sub_of_le _ _ hLe, hFollows.bits]
      have hShift : (buffer.bits - toBits.toNat) % 32 = buffer.bits - toBits.toNat := by
        rw [hFollows.bits] at hBits
        exact Nat.mod_eq_of_lt (lt_of_le_of_lt (Nat.sub_le _ _) hBits)
      rw [if_pos hLe, if_pos hNat]
      refine ih _
        { acc := buffer.acc
          bits := buffer.bits - toBits.toNat
          out := _ } ⟨hFollows.accumulator, hSub, ?_⟩ ?_
      · dsimp only
        rw [hFollows.converted, toUInt8_mask hMax, UInt32.toNat_shiftRight, hSub, hShift,
          hFollows.accumulator]
      · dsimp only
        rw [hSub]
        rw [hFollows.bits] at hBits
        exact lt_of_le_of_lt (Nat.sub_le _ _) hBits
    · have hNat : ¬ toBits.toNat ≤ buffer.bits := by
        rw [← hFollows.bits]
        exact fun h => hLe (UInt32.le_iff_toNat_le.mpr h)
      rw [if_neg hLe, if_neg hNat]
      exact hFollows

/- One value at a time, where a group of each size fits the word. -/
theorem follows_convertValue {fromBits toBits : UInt32}
    (hMax : maxValue.toNat = 2 ^ toBits.toNat - 1) (hFits : toBits.toNat + fromBits.toNat ≤ 32)
    (hFrom : fromBits.toNat < 32) {state : Conversion} {buffer : Cashaddr.BitBuffer}
    (hFollows : Follows state buffer) (hBits : buffer.bits < toBits.toNat) (value : UInt8) :
    Option.Rel Follows (convertValue fromBits toBits maxValue state value)
      (buffer.push fromBits.toNat toBits.toNat value) := by
  have hShift : value.toUInt32 >>> fromBits = 0 ↔ value.toNat >>> fromBits.toNat = 0 := by
    rw [← UInt32.toNat_inj, UInt32.toNat_shiftRight, UInt8.toNat_toUInt32, Nat.mod_eq_of_lt hFrom]
    rfl
  unfold convertValue Cashaddr.BitBuffer.push
  by_cases hSmall : value.toUInt32 >>> fromBits = 0
  · rw [if_neg (not_not.mpr hSmall), if_neg (not_not.mpr (hShift.mp hSmall))]
    have hSum : (state.bits + fromBits).toNat = buffer.bits + fromBits.toNat := by
      rw [UInt32.toNat_add, hFollows.bits]
      exact Nat.mod_eq_of_lt (by omega)
    have hEmit :=
      follows_emitGroups hMax (state.bits + fromBits).toNat
        { accumulator := (state.accumulator <<< fromBits) ||| value.toUInt32
          bits := state.bits + fromBits
          converted := state.converted }
        { acc := ((buffer.acc <<< fromBits.toNat) % 2 ^ 32) ||| value.toNat
          bits := buffer.bits + fromBits.toNat
          out := buffer.out }
        ⟨by
          dsimp only
          rw [UInt32.toNat_or, UInt32.toNat_shiftLeft, UInt8.toNat_toUInt32, Nat.mod_eq_of_lt hFrom,
            hFollows.accumulator], hSum, hFollows.converted⟩
        (by
          dsimp only
          omega)
    rw [hSum] at hEmit
    dsimp only
    rw [hSum]
    exact Option.Rel.some hEmit
  · rw [if_pos hSmall, if_pos (fun h => hSmall (hShift.mpr h))]
    exact Option.Rel.none

/- A whole list of values.  By induction over it; what the buffer holds keeps fewer bits pending
   than a group has. -/
theorem follows_foldlM {fromBits toBits maxValue : UInt32}
    (hMax : maxValue.toNat = 2 ^ toBits.toNat - 1) (hTo : 0 < toBits.toNat)
    (hByte : toBits.toNat ≤ 8) (hFits : toBits.toNat + fromBits.toNat ≤ 32)
    {input data : List UInt8} (hData : ∀ value ∈ data, value.toNat < 2 ^ fromBits.toNat)
    {state : Conversion} {buffer : Cashaddr.BitBuffer} (hFollows : Follows state buffer)
    (hHolds : buffer.Holds fromBits.toNat toBits.toNat input) :
    ∃ state' buffer',
    data.foldlM (convertValue fromBits toBits maxValue) state = some state' ∧
      data.foldlM (fun buffer value => buffer.push fromBits.toNat toBits.toNat value) buffer =
        some buffer' ∧
      Follows state' buffer' ∧
      buffer'.bits < toBits.toNat := by
  induction data generalizing state buffer input with
  | nil => exact ⟨_, _, rfl, rfl, hFollows, hHolds.bits_lt⟩
  | cons value data ih =>
    rcases Cashaddr.holds_push hTo hByte hFits hHolds (hData value List.mem_cons_self) with
      ⟨next, hPush, hNext⟩
    have hStep := follows_convertValue hMax hFits (by omega) hFollows hHolds.bits_lt value
    rw [hPush] at hStep
    cases hConvert : convertValue fromBits toBits maxValue state value with
    | none =>
      rw [hConvert] at hStep
      cases hStep
    | some after =>
      rw [hConvert] at hStep
      rcases hStep with ⟨hAfter⟩ | -
      rw [List.foldlM_cons, List.foldlM_cons, hConvert, hPush]
      exact ih (fun value hMem => hData value (List.mem_cons_of_mem _ hMem)) hAfter hNext

/- Both conversions write the same digits. -/
theorem convertBits_eq (data : List UInt8) :
    convertBits data 8 5 true = Cashaddr.convertBits data 8 5 true := by
  rcases
    @follows_foldlM 8 5 (((1 : UInt32) <<< 5) - 1) (by decide)
      (by decide) (by decide) (by decide) [] data
      (fun value _ => value.toNat_lt)
      { accumulator := 0, bits := 0, converted := [] }
      { acc := 0, bits := 0, out := [] }
      ⟨rfl, rfl, rfl⟩ (Cashaddr.holds_empty (by decide)) with
    ⟨state, buffer, hState, hBuffer, hFollows, hBits⟩
  have hMask :
      ((state.accumulator <<< (5 - state.bits)) &&& (((1 : UInt32) <<< 5) - 1)).toUInt8 =
        UInt8.ofNat (buffer.padding 5) := by
    have hLe : state.bits ≤ 5 := by
      rw [UInt32.le_iff_toNat_le, hFollows.bits]
      exact hBits.le
    have hMax : (((1 : UInt32) <<< 5) - 1).toNat = 2 ^ 5 - 1 := by decide
    have hShift : (5 - state.bits).toNat % 32 = 5 - buffer.bits := by
      rw [UInt32.toNat_sub_of_le _ _ hLe, hFollows.bits]
      exact Nat.mod_eq_of_lt (lt_of_le_of_lt (Nat.sub_le _ _) (by decide))
    rw [toUInt8_mask hMax, UInt32.toNat_shiftLeft, hShift, hFollows.accumulator]
    rfl
  have hPending : 0 < state.bits ↔ 0 < buffer.bits := by
    rw [UInt32.lt_iff_toNat_lt, hFollows.bits]
    rfl
  unfold convertBits Cashaddr.convertBits
  refine (congrArg (Option.bind · _) hState).trans ?_
  refine Eq.trans ?_ (congrArg (Option.bind · _) hBuffer).symm
  dsimp only [Option.bind_some]
  rw [if_pos rfl, if_pos rfl, hMask, hFollows.converted]
  by_cases hSome : 0 < buffer.bits
  · rw [if_pos (hPending.mpr hSome), if_pos hSome]
  · rw [if_neg (fun h => hSome (hPending.mp h)), if_neg hSome]

--- Addresses

theorem mapM_eq_some {α β : Type} {f : α → Option β} {g : α → β} {xs : List α}
    (hEach : ∀ x ∈ xs, f x = some (g x)) : xs.mapM f = some (xs.map g) := by
  induction xs with
  | nil => rfl
  | cons x xs ih =>
    have hRest : ∀ x ∈ xs, f x = some (g x) := fun x hMem => hEach x (List.mem_cons_of_mem _ hMem)
    rw [List.mapM_cons, hEach x List.mem_cons_self, ih hRest]
    rfl

theorem getElem?_cashaddrCharset {n : Nat} (hLt : n < 32) :
    cashaddrCharset[n]? = some (Cashaddr.charOf (UInt8.ofNat n)) := by
  have hAll :
      (List.range 32).all
          (fun n => decide (cashaddrCharset[n]? = some (Cashaddr.charOf (UInt8.ofNat n)))) =
        true := by
    decide +kernel
  exact of_decide_eq_true (List.all_eq_true.mp hAll n (List.mem_range.mpr hLt))

theorem checksumDigit_lt (word : UInt64) : (word &&& 0x1f).toNat < 32 := by
  rw [UInt64.toNat_and]
  exact Nat.and_lt_two_pow _ (n := 5) (by decide)

/- Both write the same text, and both write one. -/
theorem encodeCashaddr_eq (addressPrefix : String) (payload : List UInt8) :
    encodeCashaddr addressPrefix payload =
      (Cashaddr.encodePayload addressPrefix.toList payload).map String.ofList := by
  rcases Cashaddr.encodes addressPrefix.toList payload with ⟨payload5, checks, hEncodes⟩
  have hDigits :
      payload5.mapM (fun value => cashaddrCharset[value.toNat]?) =
        some (payload5.map Cashaddr.charOf) := by
    apply mapM_eq_some
    intro value hMem
    rw [getElem?_cashaddrCharset (hEncodes.small value (List.mem_append_left _ hMem)),
      UInt8.ofNat_toNat]
  have hChecks (poly : UInt64) :
      (List.range 8).mapM
          (fun index =>
              cashaddrCharset[((poly >>> UInt64.ofNat (5 * (7 - index))) &&& 0x1f).toNat]?) =
        some ((Cashaddr.checksumDigits poly).map Cashaddr.charOf) := by
    unfold Cashaddr.checksumDigits
    rw [List.map_map]
    apply mapM_eq_some
    intro index _
    rw [getElem?_cashaddrCharset (checksumDigit_lt _)]
    rfl
  unfold encodeCashaddr Cashaddr.encodePayload
  rw [convertBits_eq, hEncodes.converts]
  dsimp only [Option.bind_eq_bind, Option.bind_some, Option.map_some]
  rw [cashaddrPolymod_eq, hDigits, hChecks]
  rfl

def Network.toCore : Network → OptnWallet.Network
  | mainnet => .mainnet
  | chipnet => .chipnet

theorem Network.addressPrefix_toCore (network : Network) :
    network.toCore.addressPrefix = network.addressPrefix := by
  cases network
  · rfl
  · rfl

variable {κ : Type} (sha256 : List UInt8 → Vector UInt8 32)
variable (ripemd160 : List UInt8 → Vector UInt8 20)

/- The public keys of the other crate, with the digest that it takes of a script. -/
def hashing (bip32 : Bip32 κ) : Bip32 κ := { bip32 with hash160 := Hd.hash160 sha256 ripemd160 }

section

variable (network : Network) (tokenAware : Bool) (scriptHash : Vector UInt8 20)

/- The text of an address, which there always is. -/
theorem exists_cashaddrP2sh20 :
    ∃ text, cashaddrP2sh20 network tokenAware scriptHash = some text := by
  rcases Cashaddr.encodes network.addressPrefix.toList
      ([if tokenAware then (0x18 : UInt8) else 0x08] ++ scriptHash.toList) with
    ⟨_, _, hEncodes⟩
  unfold cashaddrP2sh20
  rw [encodeCashaddr_eq, hEncodes.text]
  exact ⟨_, rfl⟩

theorem encode_eq_cashaddrP2sh20 :
    Address.encode
        { kind := if tokenAware then .p2shToken else .p2sh
          hash := scriptHash
          addressPrefix := network.toCore.addressPrefix } =
      cashaddrP2sh20 network tokenAware scriptHash := by
  have hVersion :
      (if tokenAware then AddressKind.p2shToken
          else AddressKind.p2sh).versionByte =
        if tokenAware then (0x18 : UInt8) else 0x08 := by
    cases tokenAware <;> rfl
  unfold Address.encode cashaddrP2sh20
  rw [encodeCashaddr_eq, hVersion, Network.addressPrefix_toCore]

end

variable {network : Network} {script : List UInt8}

theorem p2shAddress_of_cashaddrP2sh20 (bip32 : Bip32 κ) {tokenAware : Bool} {text : String}
    (hText : cashaddrP2sh20 network tokenAware (hash160 sha256 ripemd160 script) = some text) :
    Multisig.p2shAddress (hashing sha256 ripemd160 bip32) network.toCore script tokenAware =
      .ok text := by
  have hEncode := (encode_eq_cashaddrP2sh20 network tokenAware _).trans hText
  unfold hash160 at hEncode
  unfold Multisig.p2shAddress hashing Hd.hash160
  dsimp only
  rw [hEncode]

--- Scripts

/- The script of sorted keys. -/
def policyScript (threshold : UInt8) (keys : List (Vector UInt8 33)) : List UInt8 :=
  [0x50 + threshold] ++ (sortUnstable keys).flatMap (fun key => [33] ++ key.toList) ++
    [0x50 + UInt8.ofNat keys.length, 0xae]

theorem length_sortUnstable (keys : List (Vector UInt8 33)) :
    (sortUnstable keys).length = keys.length := List.length_mergeSort keys

theorem length_policyScript (threshold : UInt8) (keys : List (Vector UInt8 33)) :
    (policyScript threshold keys).length = 34 * keys.length + 3 := by
  have hKeys (sorted : List (Vector UInt8 33)) :
      (sorted.flatMap (fun key => [(33 : UInt8)] ++ key.toList)).length = 34 * sorted.length := by
    induction sorted with
    | nil => rfl
    | cons key sorted ih =>
      rw [List.flatMap_cons, List.length_append, ih, List.length_append, Vector.length_toList,
        List.length_singleton, List.length_cons]
      omega
  unfold policyScript
  rw [List.length_append, List.length_append, hKeys, length_sortUnstable]
  simp only [List.length_cons, List.length_nil]
  omega

theorem smallIntegerOpcode_eq_ok_iff {value : Nat} {opcode : UInt8} :
    Multisig.smallIntegerOpcode value = .ok opcode ↔
    (1 ≤ value ∧ value ≤ 16) ∧ opcode = 0x50 + UInt8.ofNat value := by
  unfold Multisig.smallIntegerOpcode
  by_cases hRange : 1 ≤ value ∧ value ≤ Multisig.maxCosigners
  · rw [if_pos hRange]
    constructor
    · intro hOk
      exact ⟨hRange, (Except.ok.inj hOk).symm⟩
    · rintro ⟨-, rfl⟩
      rfl
  · rw [if_neg hRange]
    constructor
    · intro hOk
      cases hOk
    · intro hOk
      exact absurd hOk.1 hRange

variable {threshold : UInt8} {keys : List (Vector UInt8 33)}

theorem redeemScript_eq_ok_iff :
    Multisig.redeemScript threshold keys = .ok script ↔
    1 ≤ threshold.toNat ∧ threshold.toNat ≤ keys.length ∧
      threshold.toNat ≤ 16 ∧
      keys.length ≤ 16 ∧
      script = policyScript threshold keys := by
  unfold Multisig.redeemScript
  by_cases hNil : keys = []
  · rw [if_pos hNil]
    constructor
    · intro hOk
      cases hOk
    · rintro ⟨hOne, hLe, -⟩
      rw [hNil, List.length_nil] at hLe
      omega
  · rw [if_neg hNil]
    have hSome := List.length_pos_iff.mpr hNil
    by_cases hFew : keys.length < threshold.toNat
    · rw [if_pos hFew]
      constructor
      · intro hOk
        cases hOk
      · rintro ⟨-, hLe, -⟩
        omega
    · rw [if_neg hFew]
      constructor
      · intro hOk
        rcases bind_eq_ok_iff.mp hOk with ⟨m, hM, hOk⟩
        rcases bind_eq_ok_iff.mp hOk with ⟨n, hN, hOk⟩
        rcases smallIntegerOpcode_eq_ok_iff.mp hM with ⟨⟨hOne, hMost⟩, hM⟩
        rcases smallIntegerOpcode_eq_ok_iff.mp hN with ⟨⟨-, hMany⟩, hN⟩
        refine ⟨hOne, by omega, hMost, hMany, ?_⟩
        rw [← Except.ok.inj hOk, hM, hN, UInt8.ofNat_toNat]
        rfl
      · rintro ⟨hOne, -, hMost, hMany, hScript⟩
        rw [bind_of_ok (smallIntegerOpcode_eq_ok_iff.mpr ⟨⟨hOne, hMost⟩, rfl⟩),
          bind_of_ok (smallIntegerOpcode_eq_ok_iff.mpr ⟨⟨hSome, hMany⟩, rfl⟩), hScript,
          UInt8.ofNat_toNat]
        rfl

/- Distinct keys have no two that are the same side by side. -/
theorem hasEqualPair_eq_false (hDistinct : keys.Nodup) : hasEqualPair keys = false := by
  unfold hasEqualPair
  induction keys with
  | nil => rfl
  | cons key keys ih =>
    cases keys with
    | nil => rfl
    | cons next keys =>
      have hNe : key ≠ next := by
        intro hEq
        apply (List.nodup_cons.mp hDistinct).1
        rw [hEq]
        exact List.mem_cons_self
      have hRest := ih (List.nodup_cons.mp hDistinct).2
      simp only [List.tail_cons, List.zip_cons_cons, List.any_cons, beq_eq_false_iff_ne.mpr hNe,
        Bool.false_or]
      exact hRest

theorem nodup_sortUnstable (hDistinct : keys.Nodup) : (sortUnstable keys).Nodup :=
  (List.mergeSort_perm keys _).nodup_iff.mpr hDistinct

theorem opcodeForSmallInteger_of_range {value : UInt8} (hOne : 1 ≤ value.toNat)
    (hMost : value.toNat ≤ 16) : opcodeForSmallInteger value = .ok (0x50 + value) :=
  if_pos ⟨UInt8.le_iff_toNat_le.mpr hOne, UInt8.le_iff_toNat_le.mpr hMost⟩

theorem inspectScript_spec {total : UInt8} {sorted : List (Vector UInt8 33)}
    {inspection : MultisigInspection}
    (hInspect :
        inspectScript sha256 ripemd160 network threshold total sorted script = .ok inspection) :
    script.length ≤ 520 ∧
    inspection.redeemScript = script ∧
    cashaddrP2sh20 network false (hash160 sha256 ripemd160 script) = some inspection.address ∧
    cashaddrP2sh20 network true (hash160 sha256 ripemd160 script) =
      some inspection.tokenAddress := by
  have hExpected {α : Type} {found : Option α} {value : α} (hFound : expected found = .ok value) :
      found = some value := by
    cases found with
    | none => cases hFound
    | some here => exact congrArg some (Except.ok.inj hFound)
  unfold inspectScript at hInspect
  by_cases hLong : 520 < script.length
  · rw [if_pos hLong] at hInspect
    cases hInspect
  · rw [if_neg hLong] at hInspect
    rcases bind_eq_ok_iff.mp hInspect with ⟨address, hAddress, hInspect⟩
    rcases bind_eq_ok_iff.mp hInspect with ⟨tokenAddress, hTokenAddress, hInspect⟩
    rw [← Except.ok.inj hInspect]
    exact ⟨Nat.not_lt.mp hLong, rfl, hExpected hAddress, hExpected hTokenAddress⟩

theorem exists_inspectScript (network : Network) (threshold total : UInt8)
    (sorted : List (Vector UInt8 33)) (hShort : script.length ≤ 520) :
    ∃ inspection,
    inspectScript sha256 ripemd160 network threshold total sorted script = .ok inspection := by
  rcases exists_cashaddrP2sh20 network false (hash160 sha256 ripemd160 script) with
    ⟨address, hAddress⟩
  rcases exists_cashaddrP2sh20 network true (hash160 sha256 ripemd160 script) with
    ⟨tokenAddress, hTokenAddress⟩
  unfold inspectScript
  dsimp only
  rw [if_neg (Nat.not_lt.mpr hShort), hAddress, hTokenAddress]
  exact ⟨_, rfl⟩

/- The script is made of small numbers and sorted keys, so only its length can be refused. -/
theorem inspectP2sh20Keys_eq (network : Network) (hDistinct : keys.Nodup)
    (hLeast : 2 ≤ threshold.toNat) (hThreshold : threshold.toNat ≤ keys.length)
    (hMany : keys.length ≤ 15) :
    inspectP2sh20Keys sha256 ripemd160 network threshold keys =
      inspectScript sha256 ripemd160 network threshold (UInt8.ofNat keys.length) (sortUnstable keys)
        (policyScript threshold keys) := by
  have hTotal : (UInt8.ofNat keys.length).toNat = keys.length :=
    UInt8.toNat_ofNat_of_lt' (by
      change keys.length < 256
      omega)
  unfold inspectP2sh20Keys
  rw [if_neg (not_not.mpr ⟨by omega, hMany⟩), if_neg (by
    rintro (hFew | hFew)
    · have hNat := UInt8.lt_iff_toNat_lt.mp hFew
      change threshold.toNat < 2 at hNat
      omega
    · omega)]
  dsimp only
  rw [hasEqualPair_eq_false (nodup_sortUnstable hDistinct),
    if_neg Bool.false_ne_true, length_sortUnstable,
    opcodeForSmallInteger_of_range (by omega) (by omega),
    opcodeForSmallInteger_of_range (by omega) (by omega)]
  rfl

theorem bounds_of_inspect {inspection : MultisigInspection}
    (hInspect : inspectP2sh20Keys sha256 ripemd160 network threshold keys = .ok inspection) :
    2 ≤ threshold.toNat ∧ threshold.toNat ≤ keys.length ∧ keys.length ≤ 15 := by
  unfold inspectP2sh20Keys at hInspect
  by_cases hCount : 2 ≤ keys.length ∧ keys.length ≤ maxCosigners
  · rw [if_neg (not_not.mpr hCount)] at hInspect
    by_cases hFew : threshold < 2 ∨ keys.length < threshold.toNat
    · rw [if_pos hFew] at hInspect
      cases hInspect
    · rcases not_or.mp hFew with ⟨hLeast, hMost⟩
      exact ⟨UInt8.le_iff_toNat_le.mp (UInt8.not_lt.mp hLeast), Nat.not_lt.mp hMost, hCount.2⟩
  · rw [if_pos hCount] at hInspect
    cases hInspect

--- Both Derivations

/- Both accept the policy or neither does; where they accept it, they give one script and its two
   addresses, whatever order the keys come in. -/
structure Agrees (bip32 : Bip32 κ) (network : Network) (threshold : UInt8)
    (keys : List (Vector UInt8 33)) : Prop where
  accepts :
    (∃ script, Multisig.redeemScript threshold keys = .ok script) ↔
    ∃ inspection, inspectP2sh20Keys sha256 ripemd160 network threshold keys = .ok inspection
  same :
    ∀ script inspection,
    Multisig.redeemScript threshold keys = .ok script →
      inspectP2sh20Keys sha256 ripemd160 network threshold keys = .ok inspection →
      inspection.redeemScript = script ∧
        Multisig.p2shAddress (hashing sha256 ripemd160 bip32) network.toCore script false =
          .ok inspection.address ∧
        Multisig.p2shAddress (hashing sha256 ripemd160 bip32) network.toCore script true =
          .ok inspection.tokenAddress
  unordered :
    ∀ others,
    keys.Perm others →
      Multisig.redeemScript threshold others = Multisig.redeemScript threshold keys ∧
        inspectP2sh20Keys sha256 ripemd160 network threshold others =
          inspectP2sh20Keys sha256 ripemd160 network threshold keys

/- A script that a preview derives its addresses from. -/
def PreviewScript (bip32 : Bip32 κ) (required : UInt8) (cosigners : List Multisig.Cosigner)
    (script : List UInt8) : Prop :=
  ∃ accounts branch keys,
    cosigners.mapM (Multisig.cosignerAccount bip32) = .ok accounts ∧ (branch = 0 ∨ branch = 1) ∧
      accounts.mapM (fun account => Multisig.cosignerPublicKey bip32 account branch 0) = .ok keys ∧
      Multisig.redeemScript required keys = .ok script

theorem length_of_previewScript {bip32 : Bip32 κ} {required : UInt8}
    {cosigners : List Multisig.Cosigner} (hScript : PreviewScript bip32 required cosigners script) :
    script.length = 34 * cosigners.length + 3 := by
  rcases hScript with ⟨accounts, branch, keys, hAccounts, -, hKeys, hRedeem⟩
  rw [(redeemScript_eq_ok_iff.mp hRedeem).2.2.2.2, length_policyScript, length_of_mapM hKeys,
    length_of_mapM hAccounts]

/- What a preview says of its policy. -/
theorem previewScript_of_preview {bip32 : Bip32 κ} {network : OptnWallet.Network} {required : UInt8}
    {cosigners : List Multisig.Cosigner} {preview : Multisig.MultisigPreview}
    (hPreview : Multisig.multisigPreview bip32 network required cosigners = .ok preview) :
    cosigners.length ≤ 16 ∧ ∃ script, PreviewScript bip32 required cosigners script := by
  unfold Multisig.multisigPreview at hPreview
  by_cases hFew : cosigners.length < 2
  · rw [if_pos hFew] at hPreview
    cases hPreview
  rw [if_neg hFew] at hPreview
  by_cases hMany : Multisig.maxCosigners < cosigners.length
  · rw [if_pos hMany] at hPreview
    cases hPreview
  rw [if_neg hMany] at hPreview
  by_cases hRequired : required = 0 ∨ cosigners.length < required.toNat
  · rw [if_pos hRequired] at hPreview
    cases hPreview
  rw [if_neg hRequired] at hPreview
  refine ⟨Nat.not_lt.mp hMany, ?_⟩
  rcases bind_eq_ok_iff.mp hPreview with ⟨accounts, hAccounts, hPreview⟩
  by_cases hShares : Multisig.sharesKey (accounts.map bip32.toBytes) = true
  · rw [if_pos hShares] at hPreview
    cases hPreview
  rw [if_neg hShares] at hPreview
  rcases bind_eq_ok_iff.mp hPreview with ⟨receive, hReceive, -⟩
  unfold Multisig.branchAddress at hReceive
  rcases bind_eq_ok_iff.mp hReceive with ⟨keys, hKeys, hReceive⟩
  rcases bind_eq_ok_iff.mp hReceive with ⟨script, hScript, -⟩
  exact ⟨script, accounts, 0, keys, mapError_eq_ok_iff.mp hAccounts, .inl rfl,
    mapError_eq_ok_iff.mp hKeys, mapError_eq_ok_iff.mp hScript⟩

theorem inspectP2sh20Keys_of_perm (network : Network) (threshold : UInt8)
    {others : List (Vector UInt8 33)} (hPerm : keys.Perm others) :
    inspectP2sh20Keys sha256 ripemd160 network threshold others =
      inspectP2sh20Keys sha256 ripemd160 network threshold keys := by
  have hSorted : sortUnstable others = sortUnstable keys :=
    (Multisig.sortPublicKeysBip67_of_perm hPerm).symm
  unfold inspectP2sh20Keys
  rw [hSorted, hPerm.length_eq]

theorem accepts_iff (network : Network) (hLeast : 2 ≤ threshold.toNat) (hDistinct : keys.Nodup) :
    (∃ inspection, inspectP2sh20Keys sha256 ripemd160 network threshold keys = .ok inspection) ↔
    threshold.toNat ≤ keys.length ∧ keys.length ≤ 15 := by
  constructor
  · rintro ⟨inspection, hInspect⟩
    exact (bounds_of_inspect sha256 ripemd160 hInspect).2
  · rintro ⟨hThreshold, hMany⟩
    rw [inspectP2sh20Keys_eq sha256 ripemd160 network hDistinct hLeast hThreshold hMany]
    apply exists_inspectScript
    rw [length_policyScript]
    omega

/-
  Two distinct derivations: for a threshold of two or more and distinct keys they agree, except
  for sixteen keys, whose script only one of them refuses as too long to be pushed. A preview has
  scripts of a length that can be pushed just where it has not sixteen cosigners.
-/
theorem agrees_iff (bip32 : Bip32 κ) :
    (∀ network threshold (keys : List (Vector UInt8 33)),
        2 ≤ threshold.toNat → keys.Nodup →
          (Agrees sha256 ripemd160 bip32 network threshold keys ↔
            keys.length ≠ 16 ∨ 16 < threshold.toNat)) ∧
    ∀ (network : OptnWallet.Network) required cosigners preview,
      Multisig.multisigPreview (hashing sha256 ripemd160 bip32) network required cosigners =
          .ok preview →
        ((∀ script,
              PreviewScript (hashing sha256 ripemd160 bip32) required cosigners script →
                script.length ≤ 520) ↔
          cosigners.length ≠ 16) := by
  constructor
  · intro network threshold keys hLeast hDistinct
    have hOther := accepts_iff sha256 ripemd160 network hLeast hDistinct
    constructor
    · intro hAgrees
      by_contra hNot
      rcases not_or.mp hNot with ⟨hSixteen, hThreshold⟩
      have hScript : ∃ script, Multisig.redeemScript threshold keys = .ok script :=
        ⟨_, redeemScript_eq_ok_iff.mpr ⟨by omega, by omega, by omega, by omega, rfl⟩⟩
      have hBounds := hOther.mp (hAgrees.accepts.mp hScript)
      omega
    · intro hWhen
      constructor
      · rw [hOther]
        constructor
        · rintro ⟨script, hScript⟩
          have hBounds := redeemScript_eq_ok_iff.mp hScript
          omega
        · rintro ⟨hThreshold, hMany⟩
          exact ⟨_, redeemScript_eq_ok_iff.mpr ⟨by omega, hThreshold, by omega, by omega, rfl⟩⟩
      · intro script inspection hScript hInspect
        have hBounds := bounds_of_inspect sha256 ripemd160 hInspect
        rw [inspectP2sh20Keys_eq sha256 ripemd160 network hDistinct hLeast hBounds.2.1 hBounds.2.2]
          at hInspect
        rcases inspectScript_spec sha256 ripemd160 hInspect with ⟨-, hSame, hAddress, hTokenAddress⟩
        rw [(redeemScript_eq_ok_iff.mp hScript).2.2.2.2]
        exact ⟨hSame, p2shAddress_of_cashaddrP2sh20 sha256 ripemd160 bip32 hAddress,
          p2shAddress_of_cashaddrP2sh20 sha256 ripemd160 bip32 hTokenAddress⟩
      · intro others hPerm
        exact ⟨(Multisig.redeemScript_of_perm threshold hPerm).symm,
          inspectP2sh20Keys_of_perm sha256 ripemd160 network threshold hPerm⟩
  · intro network required cosigners preview hPreview
    rcases previewScript_of_preview hPreview with ⟨hMany, script, hScript⟩
    constructor
    · intro hShort hSixteen
      have hLength := hShort script hScript
      rw [length_of_previewScript hScript] at hLength
      omega
    · intro hOther other hOtherScript
      rw [length_of_previewScript hOtherScript]
      omega

--- Samples

def keyOfNat (value : Nat) : Vector UInt8 33 :=
  Vector.ofFn (fun i => UInt8.ofNat (value >>> (8 * (32 - i.val))))

/- The public keys of the secrets from one to sixteen. -/
def sixteenKeys : List (Vector UInt8 33) :=
  [keyOfNat 0x0279be667ef9dcbbac55a06295ce870b07029bfcdb2dce28d959f2815b16f81798,
    keyOfNat 0x02c6047f9441ed7d6d3045406e95c07cd85c778e4b8cef3ca7abac09b95c709ee5,
    keyOfNat 0x02f9308a019258c31049344f85f89d5229b531c845836f99b08601f113bce036f9,
    keyOfNat 0x02e493dbf1c10d80f3581e4904930b1404cc6c13900ee0758474fa94abe8c4cd13,
    keyOfNat 0x022f8bde4d1a07209355b4a7250a5c5128e88b84bddc619ab7cba8d569b240efe4,
    keyOfNat 0x03fff97bd5755eeea420453a14355235d382f6472f8568a18b2f057a1460297556,
    keyOfNat 0x025cbdf0646e5db4eaa398f365f2ea7a0e3d419b7e0330e39ce92bddedcac4f9bc,
    keyOfNat 0x022f01e5e15cca351daff3843fb70f3c2f0a1bdd05e5af888a67784ef3e10a2a01,
    keyOfNat 0x03acd484e2f0c7f65309ad178a9f559abde09796974c57e714c35f110dfc27ccbe,
    keyOfNat 0x03a0434d9e47f3c86235477c7b1ae6ae5d3442d49b1943c2b752a68e2a47e247c7,
    keyOfNat 0x03774ae7f858a9411e5ef4246b70c65aac5649980be5c17891bbec17895da008cb,
    keyOfNat 0x03d01115d548e7561b15c38f004d734633687cf4419620095bc5b0f47070afe85a,
    keyOfNat 0x03f28773c2d975288bc7d1d205c3748651b075fbc6610e58cddeeddf8f19405aa8,
    keyOfNat 0x03499fdf9e895e719cfd64e67f07d38e3226aa7b63678949e6e49b241a60e823e4,
    keyOfNat 0x02d7924d4f7d43ea965a465ae3095ff41131e5946f3c85f79e44adbcf8e27e080e,
    keyOfNat 0x03e60fce93b59e9ec53011aabc21c23e97b2a31369b87a5ae9c44ee89e2a6dec0a]

theorem nodup_sixteenKeys : sixteenKeys.Nodup := by
  decide +kernel

/- Sixteen keys have a script in one derivation, which is too long to be pushed, and the other
   refuses them. -/
theorem sixteen_keys_accepted_by_one :
    sixteenKeys.Nodup ∧
    (∃ script, Multisig.redeemScript 2 sixteenKeys = .ok script ∧ script.length = 547) ∧
    ∀ sha256 ripemd160,
      inspectP2sh20Keys sha256 ripemd160 .mainnet 2 sixteenKeys =
        .error (.error (.policy "a P2SH multisig policy needs between 2 and 15 cosigners")) := by
  have hLength : sixteenKeys.length = 16 := rfl
  refine ⟨nodup_sixteenKeys, ?_, ?_⟩
  · refine ⟨policyScript 2 sixteenKeys, redeemScript_eq_ok_iff.mpr ?_, ?_⟩
    · rw [hLength]
      exact ⟨by decide, by decide, by decide, by decide, rfl⟩
    · rw [length_policyScript, hLength]
  · intro sha256 ripemd160
    exact if_pos (by
      rw [hLength]
      decide)

/- The two keys of the test vector. -/
def vectorKeys : List (Vector UInt8 33) :=
  [keyOfNat 0x02ff12471208c14bd580709cb2358d98975247d8765f92bc25eab3b2763ed605f8,
    keyOfNat 0x02fe6f0a5a297eb38c391581c4413e084773ea23954d93f7753db7dc0adc188b2f]

/- The digests of the script of these keys. -/
def vectorSha256 (_ : List UInt8) : Vector UInt8 32 :=
  Vector.ofFn
    (fun i => UInt8.ofNat
        (0xb4dcb2eee00b7d71c86c08054f0a40b28e6f85572bd79d314accdfb8f30b9f77 >>> (8 * (31 - i.val))))

def vectorRipemd160 (_ : List UInt8) : Vector UInt8 20 :=
  Vector.ofFn
    (fun i => UInt8.ofNat (0x56be8ea93912f37685542a2a864a5600f88a6754 >>> (8 * (19 - i.val))))

/- No extended key can be read. -/
def noBip32 : Bip32 Empty where
  fromStr _ := none
  depth := Empty.elim
  isHardened := Empty.elim
  childNumber index _ := .ok index
  deriveChild := Empty.elim
  toBytes := Empty.elim
  hash160 _ := Vector.replicate 20 0

theorem agrees_vectorKeys : Agrees vectorSha256 vectorRipemd160 noBip32 .chipnet 2 vectorKeys :=
  ((agrees_iff vectorSha256 vectorRipemd160 noBip32).1 .chipnet
      2 vectorKeys (by decide) (by decide +kernel)).mpr
    (.inl (by decide))

end OptnWallet.MultisigCore
