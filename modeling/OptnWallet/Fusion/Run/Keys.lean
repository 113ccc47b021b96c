import OptnWallet.Fusion.Run

/-
  The private keys that a round accepts.  Zero is one of them, and has no public key to sign under.

  Main declarations:
    * `Fusion.SignsAndVerifies`
    * `Fusion.key_signs_iff`
-/

namespace OptnWallet.Fusion

open StagedUpdate Schnorr BlindSchnorr

variable {n : Nat} {Point : Type} [AddCommGroup Point] [Module (ZMod n) Point] [DecidableEq Point]
variable (curve : Curve n Point) (sha256 : List UInt8 → Vector UInt8 32)
variable (hmac : List UInt8 → List UInt8 → Vector UInt8 32)

/- From some number of draws on the same signature is returned, which the public key verifies. -/
def SignsAndVerifies (bytes msg32 : Vector UInt8 32) : Prop :=
  ∃ privkey pubkey sig bound,
    scalarFromPrivkey (n := n) bytes = .ok privkey ∧
      pubkeyCompressed curve privkey = .ok pubkey ∧
      (∀ fuel ≥ bound, sign curve sha256 hmac fuel privkey msg32 = .ok sig) ∧
      verify curve sha256 pubkey.toList sig msg32 = .ok true

variable {curve sha256 hmac}

/- More draws give the same nonce. -/
theorem drawNonce_mono {fuel more : Nat} (hLe : fuel ≤ more) {k v : Vector UInt8 32}
    {nonce : ZMod n} (hDraw : drawNonce hmac n fuel k v = some nonce) :
    drawNonce hmac n more k v = some nonce := by
  induction fuel generalizing more k v with
  | zero => cases hDraw
  | succ fuel ih =>
    cases more with
    | zero => exact absurd hLe (Nat.not_succ_le_zero fuel)
    | succ more =>
      unfold drawNonce at hDraw ⊢
      dsimp only at hDraw ⊢
      split
      · rename_i value hRepr
        rw [hRepr] at hDraw
        dsimp only at hDraw
        split at hDraw
        · rename_i hZero
          rw [if_pos hZero]
          exact ih (Nat.le_of_succ_le_succ hLe) hDraw
        · rename_i hNonzero
          rw [if_neg hNonzero]
          exact hDraw
      · rename_i hRepr
        rw [hRepr] at hDraw
        exact ih (Nat.le_of_succ_le_succ hLe) hDraw

/- The public key is the identity, which the challenge does not encode. -/
theorem sign_zero (fuel : Nat) (msg32 : Vector UInt8 32) :
    sign curve sha256 hmac fuel 0 msg32 = .error .panic := by
  unfold sign
  split
  · rfl
  · rename_i nonce hNonce
    have : Fact n.Prime := ⟨curve.prime⟩
    have hPoint := smul_generator_ne_zero curve (drawNonce_ne_zero hNonce)
    rw [bind_of_ok (affineXy_of_ne hPoint), zero_smul]
    unfold challenge compressed
    rw [if_pos rfl]
    rfl

theorem fromRepr_eq_zero_iff {bytes : Vector UInt8 32} {privkey : ZMod n}
    (hRepr : fromRepr bytes = some privkey) : privkey = 0 ↔ bytes = Vector.replicate 32 0 := by
  constructor
  · rintro rfl
    rw [← toBytes_of_fromRepr hRepr]
    unfold toBytes
    rw [ZMod.val_zero]
    decide
  · rintro rfl
    unfold fromRepr at hRepr
    split at hRepr
    · rw [← Option.some.inj hRepr]
      exact Nat.cast_zero
    · cases hRepr

theorem scalarFromPrivkey_eq_ok_iff {bytes : Vector UInt8 32} {privkey : ZMod n} :
    scalarFromPrivkey bytes = .ok privkey ↔ fromRepr bytes = some privkey := by
  unfold scalarFromPrivkey
  cases fromRepr (n := n) bytes with
  | none => simp
  | some scalar => simp

/- An accepted key signs exactly when it is not zero, and a signature whose second half is not
   reduced is never verified. -/
theorem key_signs_iff
    (hDraws :
      ∀ (privkey : ZMod n) msg32, ∃ fuel nonce,
        deterministicNonce hmac fuel privkey msg32 = some nonce)
    {bytes : Vector UInt8 32} {privkey : ZMod n}
    (hAccepted : scalarFromPrivkey bytes = .ok privkey) (msg32 : Vector UInt8 32) :
    (SignsAndVerifies curve sha256 hmac bytes msg32 ↔ bytes ≠ Vector.replicate 32 0) ∧
      ∀ pubkey sig message,
        n ≤ natOfBytesBE sig.s.toList → verify curve sha256 pubkey sig message = .ok false := by
  have hZero := fromRepr_eq_zero_iff (scalarFromPrivkey_eq_ok_iff.mp hAccepted)
  refine ⟨⟨?_, fun hBytes => ?_⟩, fun pubkey sig message hUnreduced => ?_⟩
  · rintro ⟨privkey', pubkey, sig, bound, hScalar, -, hSign, -⟩ hBytes
    rw [hAccepted] at hScalar
    have hSig := hSign bound le_rfl
    rw [← Except.ok.inj hScalar, hZero.mpr hBytes, sign_zero] at hSig
    cases hSig
  · have hPrivkey : privkey ≠ 0 := fun hEq => hBytes (hZero.mp hEq)
    have : Fact n.Prime := ⟨curve.prime⟩
    have hKey := smul_generator_ne_zero curve hPrivkey
    rcases hDraws privkey msg32 with ⟨bound, nonce, hNonce⟩
    have hPoint := smul_generator_ne_zero curve (drawNonce_ne_zero hNonce)
    have hSame : ∀ fuel ≥ bound,
        sign curve sha256 hmac fuel privkey msg32 = sign curve sha256 hmac bound privkey msg32 := by
      intro fuel hFuel
      have hMore : deterministicNonce hmac fuel privkey msg32 = some nonce :=
        drawNonce_mono hFuel hNonce
      unfold sign
      rw [hMore, hNonce]
    have hSign : ∃ sig, sign curve sha256 hmac bound privkey msg32 = .ok sig := by
      unfold sign
      rw [hNonce]
      dsimp only
      rw [bind_of_ok (affineXy_of_ne hPoint), bind_of_ok (challenge_eq hKey _ _)]
      exact ⟨_, rfl⟩
    rcases hSign with ⟨sig, hSign⟩
    exact ⟨privkey, _, sig, bound, hAccepted, compressed_eq_ok_iff.mpr ⟨hKey, rfl⟩,
      fun fuel hFuel => (hSame fuel hFuel).trans hSign, sign_verifies hPrivkey hSign⟩
  · unfold verify
    split
    · rfl
    · unfold fromRepr
      rw [if_neg (not_lt.mpr hUnreduced)]

/- Every draw is two. -/
def sevenHmac (_ _ : List UInt8) : Vector UInt8 32 := Rpa.scalarBytes 2

theorem sevenHmac_draws (privkey : ZMod 7) (msg32 : Vector UInt8 32) :
    ∃ fuel nonce, deterministicNonce sevenHmac fuel privkey msg32 = some nonce :=
  ⟨1, 2, rfl⟩

theorem key_three_signs :
    SignsAndVerifies sevenPoints sevenSha256 sevenHmac (Rpa.scalarBytes 3)
      (Vector.replicate 32 0) := by
  have hAccepted : scalarFromPrivkey (n := 7) (Rpa.scalarBytes 3) = .ok 3 := by decide +kernel
  exact (key_signs_iff sevenHmac_draws hAccepted (Vector.replicate 32 0)).1.mpr (by decide)

/- A key of 32 zero bytes is accepted, and aborts. -/
theorem key_zero_aborts :
    scalarFromPrivkey (n := 7) (Vector.replicate 32 0) = .ok 0 ∧
      sign sevenPoints sevenSha256 sevenHmac 1 0 (Vector.replicate 32 0) = .error .panic ∧
      ¬ SignsAndVerifies sevenPoints sevenSha256 sevenHmac (Vector.replicate 32 0)
        (Vector.replicate 32 0) := by
  have hAccepted : scalarFromPrivkey (n := 7) (Vector.replicate 32 0) = .ok 0 := by decide +kernel
  refine ⟨hAccepted, sign_zero 1 _, ?_⟩
  rintro ⟨privkey, pubkey, sig, bound, hScalar, -, hSign, -⟩
  rw [hAccepted] at hScalar
  have hSig := hSign bound le_rfl
  rw [← Except.ok.inj hScalar, sign_zero] at hSig
  cases hSig

end OptnWallet.Fusion
