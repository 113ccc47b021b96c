import Mathlib.Data.Nat.Log
import OptnWallet.Core.Nip44
import OptnWallet.Library.StagedUpdate

/-
  Messages are read back, and their payloads tell no more of their length than its bucket.

  Main declarations:
    * `Nip44.paddedLength_mono`
    * `Nip44.paddedLength_idempotent`
    * `Nip44.decrypt_encrypt` and `Nip44.decrypt_spec`
    * `Nip44.messages_roundTrip_and_hide_length`
-/

--- Buckets

namespace OptnWallet.Nip44

open StagedUpdate

/- The step of the buckets below `2 ^ k`. -/
def chunkBelow (k : Nat) : Nat :=
  if 2 ^ k ≤ 256 then 32 else 2 ^ k / 8

/- A length, rounded up to a multiple of a step. -/
def roundUp (chunk length : Nat) : Nat := chunk * ((length - 1) / chunk + 1)

theorem chunkBelow_pos (k : Nat) : 0 < chunkBelow k := by
  unfold chunkBelow
  split
  · decide
  · omega

variable {k : Nat}

/- From 32 on, a power of two is some steps. -/
theorem chunkBelow_dvd (hLarge : 5 ≤ k) : chunkBelow k ∣ 2 ^ k := by
  unfold chunkBelow
  split
  · exact pow_dvd_pow 2 hLarge
  · have hEight : 2 ^ 3 ∣ 2 ^ k := pow_dvd_pow 2 (by omega)
    exact Nat.div_dvd_of_dvd hEight

variable {chunk : Nat}

theorem le_roundUp (hChunk : 0 < chunk) (length : Nat) : length ≤ roundUp chunk length := by
  have hDiv := Nat.lt_mul_div_succ (length - 1) hChunk
  unfold roundUp
  omega

theorem roundUp_mono {a b : Nat} (hLe : a ≤ b) : roundUp chunk a ≤ roundUp chunk b := by
  unfold roundUp
  apply Nat.mul_le_mul_left
  apply Nat.succ_le_succ
  apply Nat.div_le_div_right
  omega

variable {length : Nat}

/- A multiple of the step is its own bucket. -/
theorem roundUp_of_dvd (hPositive : 0 < length) (hDvd : chunk ∣ length) :
    roundUp chunk length = length := by
  rcases hDvd with ⟨count, rfl⟩
  have hCount : 0 < count := Nat.pos_of_mul_pos_left hPositive
  unfold roundUp
  have hDiv : (chunk * count - 1) / chunk = count - 1 := by
    rw [Nat.mul_sub_div 0 chunk count hPositive, Nat.zero_div]
  rw [hDiv, Nat.sub_add_cancel hCount]

/- Beyond the first bucket, a length is rounded up by the step of its power of two. -/
theorem paddedLength_eq (hLarge : 32 < length) (hLower : 2 ^ k < length)
    (hUpper : length ≤ 2 ^ (k + 1)) (hSlice : length ≤ 2 ^ 63) :
    paddedLength length = roundUp (chunkBelow (k + 1)) length := by
  have hWidth : Word64.bitWidth (length - 1) = k + 1 :=
    Word64.bitWidth_eq (by omega) (by omega) (by omega)
  unfold paddedLength roundUp chunkBelow
  rw [if_neg (by omega), hWidth, Nat.one_shiftLeft]

/- The power of two that a length beyond 32 reaches. -/
theorem exists_power (hLarge : 32 < length) :
    ∃ k, 5 ≤ k ∧ 2 ^ k < length ∧ length ≤ 2 ^ (k + 1) := by
  refine ⟨Nat.log2 (length - 1), ?_, ?_, ?_⟩
  · rw [Nat.le_log2 (by omega)]
    omega
  · have hSelf := Nat.log2_self_le (n := length - 1) (by omega)
    omega
  · have hNext : length - 1 < 2 ^ (Nat.log2 (length - 1) + 1) := Nat.lt_log2_self
    omega

theorem paddedLength_of_le (hSmall : length ≤ 32) : paddedLength length = 32 := if_pos hSmall

/- A bucket does not leave the power of two of its length. -/
theorem paddedLength_bounds (hPower : 5 ≤ k) (hLower : 2 ^ k < length)
    (hUpper : length ≤ 2 ^ (k + 1)) (hSlice : length ≤ 2 ^ 63) :
    length ≤ paddedLength length ∧ paddedLength length ≤ 2 ^ (k + 1) := by
  have hThirtyTwo : 2 ^ 5 ≤ 2 ^ k := Nat.pow_le_pow_right (by decide) hPower
  have hChunk := chunkBelow_pos (k + 1)
  rw [paddedLength_eq (by omega) hLower hUpper hSlice]
  refine ⟨le_roundUp hChunk length, ?_⟩
  calc
    roundUp (chunkBelow (k + 1)) length ≤ roundUp (chunkBelow (k + 1)) (2 ^ (k + 1)) :=
      roundUp_mono hUpper
    _ = 2 ^ (k + 1) := roundUp_of_dvd (Nat.two_pow_pos _) (chunkBelow_dvd (by omega))

theorem le_paddedLength (hSlice : length ≤ 2 ^ 63) : length ≤ paddedLength length := by
  by_cases hSmall : length ≤ 32
  · rw [paddedLength_of_le hSmall]
    exact hSmall
  · rcases exists_power (Nat.lt_of_not_le hSmall) with ⟨k, hPower, hLower, hUpper⟩
    exact (paddedLength_bounds hPower hLower hUpper hSlice).1

/- The bucket of a bucket is itself: it is a multiple of the step, below the same power of two. -/
theorem paddedLength_idempotent (hSlice : length ≤ 2 ^ 63) :
    paddedLength (paddedLength length) = paddedLength length := by
  by_cases hSmall : length ≤ 32
  · rw [paddedLength_of_le hSmall]
    rfl
  · rw [Nat.not_le] at hSmall
    rcases exists_power hSmall with ⟨k, hPower, hLower, hUpper⟩
    rcases paddedLength_bounds hPower hLower hUpper hSlice with ⟨hFrom, hTo⟩
    have hWord : k < 63 := by
      by_contra hWide
      have hPow : 2 ^ 63 ≤ 2 ^ k := Nat.pow_le_pow_right (by decide) (by omega)
      omega
    have hPow : 2 ^ (k + 1) ≤ 2 ^ 63 := Nat.pow_le_pow_right (by decide) hWord
    rw [paddedLength_eq (by omega) (Nat.lt_of_lt_of_le hLower hFrom) hTo (by omega)]
    apply roundUp_of_dvd (by omega)
    rw [paddedLength_eq hSmall hLower hUpper hSlice]
    exact Nat.dvd_mul_right _ _

/- A longer length is in the same power of two or in a later one, where the buckets of the first
   have ended. -/
theorem paddedLength_mono {a b : Nat} (hLe : a ≤ b) (hSlice : b ≤ 2 ^ 63) :
    paddedLength a ≤ paddedLength b := by
  by_cases hSmall : a ≤ 32
  · rw [paddedLength_of_le hSmall]
    by_cases hSmall' : b ≤ 32
    · rw [paddedLength_of_le hSmall']
    · have hFrom := le_paddedLength hSlice
      omega
  · rcases exists_power (Nat.lt_of_not_le hSmall) with ⟨k, hPower, hLower, hUpper⟩
    rcases exists_power (Nat.lt_of_lt_of_le (Nat.lt_of_not_le hSmall) hLe) with
      ⟨k', hPower', hLower', hUpper'⟩
    rcases Nat.lt_trichotomy k k' with hLess | rfl | hMore
    · have hTo := (paddedLength_bounds hPower hLower hUpper (Nat.le_trans hLe hSlice)).2
      have hFrom := le_paddedLength hSlice
      have hPow : 2 ^ (k + 1) ≤ 2 ^ k' := Nat.pow_le_pow_right (by decide) hLess
      omega
    · rw [paddedLength_eq (by omega) hLower hUpper (by omega),
        paddedLength_eq (by omega) hLower' hUpper' hSlice]
      exact roundUp_mono hLe
    · have hPow : 2 ^ (k' + 1) ≤ 2 ^ k := Nat.pow_le_pow_right (by decide) hMore
      omega

/- The buckets of messages. -/
theorem paddedLength_message (hLong : length ≤ maxPlaintextLen) :
    32 ≤ paddedLength length ∧ paddedLength length ≤ 65536 := by
  unfold maxPlaintextLen at hLong
  have hFrom : paddedLength 0 ≤ paddedLength length := paddedLength_mono (Nat.zero_le _) (by omega)
  have hTo : paddedLength length ≤ paddedLength 65536 := paddedLength_mono (by omega) (by decide)
  have hFirst : paddedLength 0 = 32 := rfl
  have hLast : paddedLength 65536 = 65536 := by decide +kernel
  omega

--- Padding

/- The two bytes of a length that fits them. -/
theorem natOfBytes_lengthBytes (hLong : length ≤ maxPlaintextLen) :
    (UInt8.ofNat (length / 256)).toNat * 256 + (UInt8.ofNat (length % 256)).toNat = length := by
  unfold maxPlaintextLen at hLong
  rw [UInt8.toNat_ofNat', UInt8.toNat_ofNat',
    Nat.mod_eq_of_lt (by omega), Nat.mod_eq_of_lt (by omega)]
  omega

variable {plaintext : List UInt8}

/- What is padded: a length, its bytes and zeros. -/
theorem pad_eq (hShort : minPlaintextLen ≤ plaintext.length)
    (hLong : plaintext.length ≤ maxPlaintextLen) :
    pad plaintext = .ok (lengthBytes plaintext.length ++
          (plaintext ++ List.replicate (paddedLength plaintext.length - plaintext.length) 0)) := by
  have hRange : plaintext.length ≤ 2 ^ 63 := by
    unfold maxPlaintextLen at hLong
    omega
  have hFrom := le_paddedLength hRange
  have hTwo : (lengthBytes plaintext.length ++ plaintext).length = 2 + plaintext.length := by
    rw [List.length_append]
    rfl
  unfold pad resize
  rw [if_pos ⟨hShort, hLong⟩, List.take_of_length_le (by omega),
    hTwo, Nat.add_sub_add_left, List.append_assoc]

variable {padded : List UInt8}

theorem length_pad (hPad : pad plaintext = .ok padded) :
    padded.length = 2 + paddedLength plaintext.length := by
  unfold pad at hPad
  split at hPad
  · cases hPad
    unfold resize
    rw [List.length_append, List.length_take, List.length_replicate]
    omega
  · cases hPad

/- The padding is taken off again. -/
theorem unpad_pad (hShort : minPlaintextLen ≤ plaintext.length)
    (hLong : plaintext.length ≤ maxPlaintextLen) (hPad : pad plaintext = .ok padded) :
    unpad padded = .ok plaintext := by
  have hRange : plaintext.length ≤ 2 ^ 63 := by
    unfold maxPlaintextLen at hLong
    omega
  have hFrom := le_paddedLength hRange
  rw [pad_eq hShort hLong, Except.ok.injEq] at hPad
  subst hPad
  unfold lengthBytes
  simp only [List.cons_append, List.nil_append]
  unfold unpad
  dsimp only
  rw [natOfBytes_lengthBytes hLong, List.length_append,
    List.length_replicate, if_neg (by omega), if_neg (by omega), List.take_left]

/- What was unpadded fills the bucket of its declared length. -/
theorem unpad_spec (hUnpad : unpad padded = .ok plaintext) :
    minPlaintextLen ≤ plaintext.length ∧
    plaintext.length ≤ maxPlaintextLen ∧
    ∃ rest,
      padded = lengthBytes plaintext.length ++ (plaintext ++ rest) ∧
        padded.length = 2 + paddedLength plaintext.length := by
  rcases padded with _ | ⟨high, _ | ⟨low, body⟩⟩
  · cases hUnpad
  · cases hUnpad
  · unfold unpad at hUnpad
    dsimp only at hUnpad
    split at hUnpad
    · cases hUnpad
    rename_i hHeld
    split at hUnpad
    · cases hUnpad
    rename_i hBucket
    cases hUnpad
    have hHigh := high.toNat_lt
    have hLow := low.toNat_lt
    rw [not_or, Nat.not_lt, Nat.not_lt] at hHeld
    rw [not_not] at hBucket
    have hLength :
        (body.take (high.toNat * 256 + low.toNat)).length = high.toNat * 256 + low.toNat := by
      rw [List.length_take]
      omega
    have hBytes : lengthBytes (high.toNat * 256 + low.toNat) = [high, low] := by
      have hDiv : (high.toNat * 256 + low.toNat) / 256 = high.toNat := by omega
      have hMod : (high.toNat * 256 + low.toNat) % 256 = low.toNat := by omega
      unfold lengthBytes
      rw [hDiv, hMod, UInt8.ofNat_toNat, UInt8.ofNat_toNat]
    rw [hLength, hBytes]
    refine ⟨hHeld.1, ?_, body.drop (high.toNat * 256 + low.toNat), ?_, ?_⟩
    · unfold maxPlaintextLen
      omega
    · rw [List.take_append_drop]
      rfl
    · rw [List.length_cons, List.length_cons, hBucket]
      omega

--- Messages

variable {primitives : Primitives}

/- The same key stream twice is none. -/
theorem applyKeystream_involutive (keys : MessageKeys) (bytes : List UInt8) :
    applyKeystream primitives keys (applyKeystream primitives keys bytes) = bytes := by
  unfold applyKeystream
  rw [List.mapIdx_mapIdx]
  apply List.ext_getElem
  · rw [List.length_mapIdx]
  · intro i hI hI'
    rw [List.getElem_mapIdx, Function.comp_apply, UInt8.xor_assoc, UInt8.xor_self, UInt8.xor_zero]

@[simp]
theorem length_applyKeystream (keys : MessageKeys) (bytes : List UInt8) :
    (applyKeystream primitives keys bytes).length = bytes.length := List.length_mapIdx

@[simp]
theorem length_tag (hmacKey : List UInt8) (nonce : Vector UInt8 32) (ciphertext : List UInt8) :
    (tag primitives hmacKey nonce ciphertext).length = 32 := Vector.length_toList

/- A text of one-byte characters is as long as their list. -/
theorem utf8ByteSize_ofList {chars : List Char} (hPlain : ∀ c ∈ chars, c.utf8Size = 1) :
    (String.ofList chars).utf8ByteSize = chars.length := by
  induction chars with
  | nil => rfl
  | cons c chars ih =>
    rw [List.forall_mem_cons] at hPlain
    rw [String.ofList_cons, String.utf8ByteSize_append, String.utf8ByteSize_singleton, ih hPlain.2,
      hPlain.1, List.length_cons, Nat.add_comm]

/- The characters of a payload around a padded message. -/
def payloadLength (padded : Nat) : Nat := 4 * ((1 + 32 + padded + 32 + 2) / 3)

/- The bytes of a payload. -/
def payloadBytes (nonce : Vector UInt8 32) (ciphertext mac : List UInt8) : List UInt8 :=
  nip44Version :: (nonce.toList ++ (ciphertext ++ mac))

theorem utf8ByteSize_payload {nonce : Vector UInt8 32} {ciphertext mac : List UInt8}
    (hMac : mac.length = 32) :
    (String.ofList (Base64.encode (payloadBytes nonce ciphertext mac))).utf8ByteSize =
      payloadLength ciphertext.length := by
  rw [utf8ByteSize_ofList (fun c hMem => (Base64.plain_encode _ c hMem).2), Base64.length_encode]
  unfold payloadBytes payloadLength
  simp only [List.length_cons, List.length_append, Vector.length_toList, hMac]
  congr 2
  omega

variable {frame : Frame}

/- The fields of a frame are those that were joined. -/
theorem cutFrame_eq_ok_iff {raw : List UInt8} :
    cutFrame raw = .ok frame ↔
    raw = payloadBytes frame.nonce frame.ciphertext frame.claimed ∧
      1 ≤ frame.ciphertext.length ∧
      frame.claimed.length = 32 := by
  unfold cutFrame
  constructor
  · intro hCut
    split at hCut
    · cases hCut
    rename_i hLong
    split at hCut
    · cases hCut
    rename_i hVersion
    cases hCut
    rw [not_not] at hVersion
    rcases raw with _ | ⟨version, rest⟩
    · cases hVersion
    · cases hVersion
      rw [List.length_cons] at hLong
      refine ⟨?_, ?_, ?_⟩
      · unfold payloadBytes
        simp only [List.length_cons, List.drop_succ_cons, List.drop_zero]
        congr 1
        have hFirst : rest.length + 1 - 32 = (rest.length - 32) + 1 := by omega
        have hRest : rest.drop (rest.length - 32) = (rest.drop 32).drop (rest.length + 1 - 65) := by
          rw [List.drop_drop]
          congr 1
          omega
        have hTail :
            (rest.drop 32).take (rest.length + 1 - 65) ++
                (nip44Version :: rest).drop (rest.length + 1 - 32) = rest.drop 32 := by
          rw [hFirst, List.drop_succ_cons, hRest, List.take_append_drop]
        exact ((congrArg (rest.take 32 ++ ·) hTail).trans (List.take_append_drop 32 rest)).symm
      · simp only [List.length_take, List.length_drop, List.length_cons]
        omega
      · simp only [List.length_drop, List.length_cons]
        omega
  · rintro ⟨rfl, hShort, hMac⟩
    rcases frame with ⟨nonce, ciphertext, mac⟩
    dsimp only at hShort hMac ⊢
    have hNonce : nonce.toList.length = 32 := Vector.length_toList
    have hLength : (payloadBytes nonce ciphertext mac).length = 65 + ciphertext.length := by
      unfold payloadBytes
      simp only [List.length_cons, List.length_append, hNonce, hMac]
      omega
    have hTake : (payloadBytes nonce ciphertext mac).drop 33 = ciphertext ++ mac := by
      unfold payloadBytes
      rw [List.drop_succ_cons]
      exact List.drop_left' hNonce
    have hClaimed : (payloadBytes nonce ciphertext mac).drop (33 + ciphertext.length) = mac := by
      rw [← List.drop_drop, hTake, List.drop_left]
    rw [dif_neg (by omega), if_neg (by simp [payloadBytes])]
    congr 2
    · apply Vector.toList_inj.mp
      unfold payloadBytes
      simp [List.take_left' hNonce]
    · rw [hTake, hLength, Nat.add_sub_cancel_left, List.take_left]
    · rw [hLength]
      have hWhere : 65 + ciphertext.length - 32 = 33 + ciphertext.length := by omega
      rw [hWhere, hClaimed]

/- A payload within the bounds is cut where it was joined. -/
theorem parseFrame_payload (hMac : frame.claimed.length = 32) (hShort : 1 ≤ frame.ciphertext.length)
    (hMin : minPayloadLen ≤ payloadLength frame.ciphertext.length)
    (hMax : payloadLength frame.ciphertext.length ≤ maxPayloadLen) :
    parseFrame
        (String.ofList (Base64.encode (payloadBytes frame.nonce frame.ciphertext frame.claimed))) =
      .ok frame := by
  unfold parseFrame
  rw [String.toList_ofList, Base64.decode_of_encode,
    utf8ByteSize_payload hMac, if_neg, if_neg (by omega)]
  · exact cutFrame_eq_ok_iff.mpr ⟨rfl, hShort, hMac⟩
  · intro hHash
    exact (Base64.plain_encode _ _ (List.mem_of_head? hHash)).1 rfl

/- What an accepted payload was joined of. -/
theorem parseFrame_spec {payload : String} (hParse : parseFrame payload = .ok frame) :
    Base64.decode payload.toList =
      some (payloadBytes frame.nonce frame.ciphertext frame.claimed) := by
  unfold parseFrame at hParse
  split at hParse
  · cases hParse
  split at hParse
  · cases hParse
  split at hParse
  · cases hParse
  · rename_i raw hDecode
    rw [hDecode, (cutFrame_eq_ok_iff.mp hParse).1]

/- The bytes of a text are that text and no other. -/
theorem fromUTF8_eq_some_iff {bytes : List UInt8} {text : String} :
    String.fromUTF8? ⟨bytes.toArray⟩ = some text ↔ utf8 text = bytes := by
  unfold String.fromUTF8? utf8
  constructor
  · intro hText
    split at hText
    · cases hText
      rfl
    · cases hText
  · rintro rfl
    rw [dif_pos text.isValidUTF8]
    rfl

/- A payload has room for each bucket of a message. -/
theorem payloadLength_message (hLong : length ≤ maxPlaintextLen) :
    minPayloadLen ≤ payloadLength (2 + paddedLength length) ∧
    payloadLength (2 + paddedLength length) ≤ maxPayloadLen := by
  have hBucket := paddedLength_message hLong
  unfold payloadLength minPayloadLen maxPayloadLen
  omega

section

variable (primitives : Primitives) (key : ConversationKey) (nonce : Vector UInt8 32)

/- The frame of a padded message. -/
def sealedFrame (padded : List UInt8) : Frame :=
  let keys := messageKeys primitives key nonce
  let ciphertext := applyKeystream primitives keys padded
  { nonce, ciphertext, claimed := tag primitives keys.hmacKey nonce ciphertext }

theorem encrypt_of_pad
    {plaintext : String} (hPad : pad (utf8 plaintext) = .ok padded) :
    encrypt primitives key plaintext nonce = .ok (String.ofList
          (Base64.encode
            (payloadBytes (sealedFrame primitives key nonce padded).nonce
              (sealedFrame primitives key nonce padded).ciphertext
              (sealedFrame primitives key nonce padded).claimed))) := by
  unfold encrypt
  rw [hPad]
  rfl

/- What is encrypted is decrypted. -/
theorem decrypt_encrypt
    {plaintext : String} (hShort : minPlaintextLen ≤ (utf8 plaintext).length)
    (hLong : (utf8 plaintext).length ≤ maxPlaintextLen) :
    ∃ payload,
    encrypt primitives key plaintext nonce = .ok payload ∧
      payload.utf8ByteSize = payloadLength (2 + paddedLength (utf8 plaintext).length) ∧
      decrypt primitives key payload = .ok plaintext := by
  have hPadded : ∃ padded, pad (utf8 plaintext) = .ok padded := ⟨_, pad_eq hShort hLong⟩
  rcases hPadded with ⟨padded, hPad⟩
  have hMac : (sealedFrame primitives key nonce padded).claimed.length = 32 := length_tag _ _ _
  have hLength :
      (sealedFrame primitives key nonce padded).ciphertext.length =
        2 + paddedLength (utf8 plaintext).length :=
    (length_applyKeystream _ _).trans (length_pad hPad)
  have hRoom := payloadLength_message hLong
  rw [← hLength] at hRoom
  have hParse := parseFrame_payload hMac (by omega) hRoom.1 hRoom.2
  refine ⟨_, encrypt_of_pad primitives key nonce hPad, ?_, ?_⟩
  · rw [utf8ByteSize_payload hMac, hLength]
  · unfold decrypt
    refine (bind_of_ok hParse _).trans ?_
    dsimp only [sealedFrame]
    refine (if_neg (not_not_intro rfl)).trans ?_
    rw [applyKeystream_involutive, unpad_pad hShort hLong hPad]
    have hText := fromUTF8_eq_some_iff.mpr (Eq.refl (utf8 plaintext))
    simp only [bind, Except.bind, hText]

end

/-
  What a payload that is accepted holds: a tag over its own nonce and ciphertext, and a message
  that fills the bucket of its declared length.
-/
structure Authentic (primitives : Primitives) (key : ConversationKey) (payload plaintext : String)
    (nonce : Vector UInt8 32) (ciphertext : List UInt8) : Prop where
  decoded :
    Base64.decode payload.toList = some (payloadBytes nonce ciphertext
          (tag primitives (messageKeys primitives key nonce).hmacKey nonce ciphertext))
  shortest : minPlaintextLen ≤ (utf8 plaintext).length
  longest : (utf8 plaintext).length ≤ maxPlaintextLen
  declared :
    ∃ rest,
    applyKeystream primitives (messageKeys primitives key nonce) ciphertext =
      lengthBytes (utf8 plaintext).length ++ (utf8 plaintext ++ rest)
  bucket : ciphertext.length = 2 + paddedLength (utf8 plaintext).length

theorem decrypt_spec {key : ConversationKey} {payload plaintext : String}
    (hDecrypt : decrypt primitives key payload = .ok plaintext) :
    ∃ nonce ciphertext, Authentic primitives key payload plaintext nonce ciphertext := by
  unfold decrypt at hDecrypt
  rcases bind_eq_ok_iff.mp hDecrypt with ⟨frame, hParse, hDecrypt⟩
  dsimp only at hDecrypt
  split at hDecrypt
  · cases hDecrypt
  rename_i hTag
  rw [not_not] at hTag
  rcases bind_eq_ok_iff.mp hDecrypt with ⟨bytes, hUnpad, hDecrypt⟩
  split at hDecrypt
  · rename_i text hText
    cases hDecrypt
    rw [fromUTF8_eq_some_iff] at hText
    subst hText
    rcases unpad_spec hUnpad with ⟨hShort, hLong, rest, hPadded, hLength⟩
    rw [length_applyKeystream] at hLength
    refine ⟨frame.nonce, frame.ciphertext, ?_⟩
    refine
      { decoded := ?_
        shortest := hShort
        longest := hLong
        declared := ⟨rest, hPadded⟩
        bucket := hLength }
    rw [hTag]
    exact parseFrame_spec hParse
  · cases hDecrypt

/-
  Messages are read back from payloads whose length is a function of their bucket, buckets are a
  monotone rounding, and what is accepted is authentic.
-/
theorem messages_roundTrip_and_hide_length (primitives : Primitives) :
    (∀ key nonce plaintext,
        minPlaintextLen ≤ (utf8 plaintext).length →
          (utf8 plaintext).length ≤ maxPlaintextLen →
          ∃ payload,
            encrypt primitives key plaintext nonce = .ok payload ∧
              minPayloadLen ≤ payload.utf8ByteSize ∧
              payload.utf8ByteSize ≤ maxPayloadLen ∧
              payload.utf8ByteSize = payloadLength (2 + paddedLength (utf8 plaintext).length) ∧
              decrypt primitives key payload = .ok plaintext) ∧
    (∀ a b, a ≤ b → b ≤ 2 ^ 63 → paddedLength a ≤ paddedLength b) ∧
    (∀ length ≤ 2 ^ 63,
        length ≤ paddedLength length ∧ paddedLength (paddedLength length) = paddedLength length) ∧
    ∀ key payload plaintext,
      decrypt primitives key payload = .ok plaintext →
        ∃ nonce ciphertext, Authentic primitives key payload plaintext nonce ciphertext := by
  refine ⟨?_, ?_, ?_, ?_⟩
  · intro key nonce plaintext hShort hLong
    rcases decrypt_encrypt primitives key nonce hShort hLong with
      ⟨payload, hEncrypt, hSize, hDecrypt⟩
    have hRoom := payloadLength_message hLong
    rw [← hSize] at hRoom
    exact ⟨payload, hEncrypt, hRoom.1, hRoom.2, hSize, hDecrypt⟩
  · intro a b hLe hSlice
    exact paddedLength_mono hLe hSlice
  · intro length hSlice
    exact ⟨le_paddedLength hSlice, paddedLength_idempotent hSlice⟩
  · intro key payload plaintext hDecrypt
    exact decrypt_spec hDecrypt

--- A Published Message

def knownKey : ConversationKey :=
  #v[0xc4, 0x1c, 0x77, 0x53, 0x56, 0xfd, 0x92, 0xea, 0xdc, 0x63, 0xff, 0x5a, 0x0d, 0xc1, 0xda, 0x21,
    0x1b, 0x26, 0x8c, 0xbe, 0xa2, 0x23, 0x16, 0x76, 0x70, 0x95, 0xb2, 0x87, 0x1e, 0xa1, 0x41, 0x2d]

def knownNonce : Vector UInt8 32 :=
  #v[0x00, 0x00, 0x00, 0x00, 0x00, 0x00, 0x00, 0x00, 0x00, 0x00, 0x00, 0x00, 0x00, 0x00, 0x00, 0x00,
    0x00, 0x00, 0x00, 0x00, 0x00, 0x00, 0x00, 0x00, 0x00, 0x00, 0x00, 0x00, 0x00, 0x00, 0x00, 0x01]

/- The three blocks of the expansion. -/
def knownBlocks : List (Vector UInt8 32) :=
  [ #v[0x63, 0xe6, 0x4c, 0xa5, 0x52, 0xc6, 0xa0, 0x66,
      0x4d, 0x4f, 0x64, 0x02, 0xc0, 0x33, 0xfd, 0x69,
      0x8f, 0x43, 0xd5, 0x31, 0x52, 0x0e, 0x17, 0x7d,
      0x7c, 0x5c, 0x84, 0x35, 0x7f, 0xea, 0xfd, 0x1a],
    #v[0x1f, 0x58, 0x29, 0x4f, 0xc1, 0xd2, 0x70, 0xdc,
      0x40, 0x71, 0x46, 0xca, 0xb3, 0xbd, 0x11, 0x76,
      0xdb, 0x3c, 0x37, 0x7f, 0x82, 0xfd, 0x03, 0x16,
      0x2d, 0x0f, 0x3a, 0x9a, 0x32, 0x3c, 0xac, 0xe3],
    #v[0x9f, 0xb8, 0x99, 0x70, 0xb9, 0xf3, 0x23, 0x95,
      0x47, 0x6e, 0x1a, 0x08, 0xc1, 0xc9, 0x95, 0xb5,
      0x05, 0xa9, 0x24, 0xa3, 0xff, 0xbd, 0x04, 0x6f,
      0x4c, 0x52, 0xee, 0x91, 0xca, 0xc8, 0x70, 0x4d] ]

def knownMac : Vector UInt8 32 :=
  #v[0x79, 0x42, 0x59, 0x92, 0x9a, 0x02, 0xbb, 0x06, 0xad, 0x8e, 0x8c, 0xf7, 0x09, 0xee, 0x4c, 0xcc,
    0x56, 0x7e, 0x9d, 0x51, 0x4c, 0xdf, 0x57, 0x81, 0xaf, 0x27, 0xa3, 0xe9, 0x05, 0xe5, 0x5b, 0x1b]

def knownStream : List UInt8 :=
  [0x79, 0xec, 0x67, 0xe5, 0x54, 0x8a, 0xd3, 0xff, 0x58, 0xca, 0x92, 0x0e, 0x6c, 0x0b, 0x43, 0x29,
    0xf6, 0x04, 0x02, 0x30, 0xf7, 0xe6, 0xe5, 0x64, 0x1f, 0x20, 0x74, 0x17, 0x80, 0xf0, 0xad, 0xc3,
    0x5a, 0x09]

/- The primitives where this message uses them. -/
def knownPrimitives : Primitives :=
  { hmac := fun key message =>
      if key = knownKey.toList then knownBlocks.getD ((message.getLastD 0).toNat - 1) knownMac
      else knownMac
    keystream := fun _ _ i => knownStream.getD i 0 }

def knownPayload : String :=
  "AgAAAAAAAAAAAAAAAAAAAAAAAAAAAAAAAAAAAAAAAAABee0G5VSK0/9YypIObAtDKfYEAjD35uVkHyB0F4DwrcNaCXlCWZKaArsGrY6M9wnuTMxWfp1RTN9Xga8no+kF5Vsb"

/- The message of one letter has the published payload. -/
theorem messages_roundTrip_and_hide_length_letter :
    encrypt knownPrimitives knownKey "a" knownNonce = .ok knownPayload ∧
    knownPayload.utf8ByteSize = payloadLength (2 + 32) ∧
    decrypt knownPrimitives knownKey knownPayload = .ok "a" := by
  have hEncrypt : encrypt knownPrimitives knownKey "a" knownNonce = .ok knownPayload := by
    decide +kernel
  rcases
      (messages_roundTrip_and_hide_length knownPrimitives).1
        knownKey knownNonce "a" (by decide) (by decide) with
    ⟨payload, hPayload, -, -, hSize, hDecrypt⟩
  rw [hEncrypt] at hPayload
  cases hPayload
  exact ⟨hEncrypt, hSize, hDecrypt⟩

end OptnWallet.Nip44
