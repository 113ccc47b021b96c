import OptnWallet.Core.HeaderPow
import OptnWallet.Core.Network

/-
  ASERT difficulty adjustment.

  Signed words are integers and unsigned words are natural numbers; every checked or saturating
  operation of the source keeps its bounds.

  Main declarations:
    * `nextBits`
    * `verifyExpectedBits`
    * `verifyHeaderExtension`
-/

--- Parameters And Anchors

namespace OptnWallet

namespace Asert

def rbits : Nat := 16

def radix : Int := 2 ^ rbits

def idealBlockTime : Int := 10 * 60

def mainnetHalfLife : Int := 2 * 24 * 60 * 60

def testnetHalfLife : Int := 60 * 60

def defaultMaxBits : UInt32 := 0x1d00ffff

/- Every regtest block declares this, without retargeting. -/
def regtestMaxBits : UInt32 := 0x207fffff

end Asert

open Asert

structure AsertParams where
  halfLife : Int
  idealBlockTime : Int
  maxBits : UInt32
  retargets : Bool
deriving DecidableEq

namespace AsertParams

def mainnet : AsertParams :=
  { halfLife := mainnetHalfLife
    idealBlockTime := Asert.idealBlockTime
    maxBits := defaultMaxBits
    retargets := true }

def testnet : AsertParams :=
  { halfLife := testnetHalfLife
    idealBlockTime := Asert.idealBlockTime
    maxBits := defaultMaxBits
    retargets := true }

def regtest : AsertParams :=
  { halfLife := testnetHalfLife
    idealBlockTime := Asert.idealBlockTime
    maxBits := regtestMaxBits
    retargets := false }

def forNetwork : Network → AsertParams
  | .mainnet => mainnet
  | .chipnet => testnet
  | .regtest => regtest

end AsertParams

/- `prevTime` is the time of the block before the anchor. -/
structure AsertAnchor where
  height : UInt32
  bits : UInt32
  prevTime : Int
deriving DecidableEq

def AsertAnchor.forNetwork : Network → AsertAnchor
  | .mainnet => { height := 661647, bits := 402971390, prevTime := 1605447844 }
  | .chipnet => { height := 16844, bits := 486604799, prevTime := 1605451779 }
  | .regtest => { height := 0, bits := regtestMaxBits, prevTime := 0 }

/- What the next header's expected bits are checked from. -/
structure AsertCheck where
  params : AsertParams
  anchor : AsertAnchor
  previousHeight : UInt32
  previousTime : Int
deriving DecidableEq

def AsertCheck.applies (check : AsertCheck) : Bool :=
  check.params.retargets && decide (check.anchor.height ≤ check.previousHeight)

inductive AsertError (H : Type) where
  | invalidParams
  | invalidAnchor (error : HeaderPowError H)
  | invalidMaxTarget (error : HeaderPowError H)
  | arithmeticRange
  | unexpectedBits (expected actual : UInt32)
deriving DecidableEq

inductive HeaderExtensionError (H : Type) where
  | pow (error : HeaderPowError H)
  | difficulty (error : AsertError H)
deriving DecidableEq

--- Checked And Saturating Arithmetic

namespace Asert

variable {H : Type}

/- A value in the range of signed `width`-bit words. -/
def checkedSigned (width : Nat) (value : Int) : Except (AsertError H) Int :=
  if -(2 ^ (width - 1)) ≤ value ∧ value < 2 ^ (width - 1) then .ok value
  else .error .arithmeticRange

def checkedI64 (value : Int) : Except (AsertError H) Int := checkedSigned 64 value

def checkedI128 (value : Int) : Except (AsertError H) Int := checkedSigned 128 value

/- A value in the range of unsigned `width`-bit words. -/
def checkedUnsigned (width value : Nat) : Except (AsertError H) Nat :=
  if value < 2 ^ width then .ok value
  else .error .arithmeticRange

def saturatingMul (a b : Nat) : Nat := min (a * b) (2 ^ 128 - 1)

def saturatingAdd (a b : Nat) : Nat := min (a + b) (2 ^ 128 - 1)

/- `i64::saturating_sub`. -/
def saturatingSubI64 (a b : Int) : Int := max (-(2 ^ 63)) (min (a - b) (2 ^ 63 - 1))

end Asert

--- Expected Bits

variable {H : Type}

def targetToCompact (target maxTarget : Nat) : Except (AsertError H) UInt32 := do
  let target := if maxTarget < target then maxTarget else target
  if target = 0 then throw .arithmeticRange
  let size ← checkedUnsigned 32 ((bitLength target + 7) / 8)
  let compactValue :=
    if size ≤ 3 then target <<< (8 * (3 - size))
    else target >>> (8 * (size - 3))
  -- The four lowest bytes of the value.
  let compact := UInt32.ofNat (compactValue % 2 ^ 32)
  let (compact, size) ←
    if compact &&& 0x00800000 ≠ 0 then do
      let size ← checkedUnsigned 32 (size + 1)
      pure (compact >>> 8, size)
    else pure (compact, size)
  let compact := compact &&& 0x007fffff
  if 256 ≤ size then throw .arithmeticRange
  pure (compact ||| (UInt32.ofNat size <<< 24))

/- The cubic approximation of the fractional power of two. -/
def asertPolynomial (e : Nat) : Nat :=
  saturatingAdd
      (saturatingAdd
        (saturatingAdd (saturatingMul 195766423245049 e)
          (saturatingMul 971821376 (saturatingMul e e)))
        (saturatingMul 5127 (saturatingMul (saturatingMul e e) e))) (1 <<< 47) >>> (rbits * 3)

/- The expected bits of the block after `previousHeight`. -/
def nextBits (params : AsertParams) (anchor : AsertAnchor) (previousHeight : UInt32)
    (previousTime : Int) : Except (AsertError H) UInt32 := do
  if params.halfLife ≤ 0 ∨ params.idealBlockTime ≤ 0 then throw .invalidParams
  let target ← (targetFromCompact anchor.bits).mapError .invalidAnchor
  let maxTarget ← (targetFromCompact params.maxBits).mapError .invalidMaxTarget
  let heightDiff : Int := previousHeight.toNat - anchor.height.toNat
  let timeDiff ← checkedI64 (previousTime - anchor.prevTime)
  let ideal ← checkedI64 (params.idealBlockTime * (← checkedI64 (heightDiff + 1)))
  let scheduleError ← checkedI64 (timeDiff - ideal)
  let scaled ← checkedI128 (scheduleError * radix)
  -- Signed division truncates toward zero.
  let exponent ← checkedI64 (scaled.tdiv params.halfLife)
  let shifts := exponent >>> rbits
  let fractional ← checkedI64 (exponent - (← checkedI64 (shifts * radix)))
  if ¬ (0 ≤ fractional ∧ fractional < radix) then throw .arithmeticRange
  let factor ← checkedUnsigned 64 (radix.toNat + asertPolynomial fractional.toNat)
  let target := target * factor
  if shifts < 0 then
    let right := (-shifts).toNat
    boundedBits (target >>> right) maxTarget
  else
    let left := shifts.toNat
    if 512 < left then pure params.maxBits
    else boundedBits (target <<< left) maxTarget
where
  boundedBits (target maxTarget : Nat) : Except (AsertError H) UInt32 :=
    let target := target >>> rbits
    if target = 0 then targetToCompact 1 maxTarget
    else if maxTarget < target then pure params.maxBits
    else targetToCompact target maxTarget

variable [Hash32 H]

def verifyExpectedBits (params : AsertParams) (anchor : AsertAnchor) (previousHeight : UInt32)
    (previousTime : Int) (header : BlockHeaderBytes) : Except (AsertError H) (ParsedHeader H) := do
  let parsed := parseHeader header
  -- The twenty-minute minimum-difficulty exception.
  if params.halfLife = testnetHalfLife ∧
      20 * 60 < saturatingSubI64 parsed.time.toNat previousTime then
    if parsed.bits ≠ params.maxBits then throw (.unexpectedBits params.maxBits parsed.bits)
    pure parsed
  else
    let expected ← nextBits params anchor previousHeight previousTime
    if parsed.bits ≠ expected then throw (.unexpectedBits expected parsed.bits)
    pure parsed

--- Header Extension

/-
  Predecessor linkage, declared proof of work and, where the difficulty rule applies, the expected
  bits.
-/
def verifyHeaderExtension [DecidableEq H] (expectedPrev : H) (header : BlockHeaderBytes)
    (difficulty : Option AsertCheck) : Except (HeaderExtensionError H) (ParsedHeader H) :=
  let bitsChecked : Except (AsertError H) Unit :=
    match difficulty.filter AsertCheck.applies with
    | none => .ok ()
    | some check =>
      (verifyExpectedBits check.params check.anchor check.previousHeight check.previousTime
          header).map (fun _ => ())
  match bitsChecked with
  | .error e => .error (.difficulty e)
  | .ok () => (verifyLink expectedPrev header).mapError .pow

theorem verifyHeaderExtension_eq_ok [DecidableEq H] {expectedPrev : H} {header : BlockHeaderBytes}
    {difficulty : Option AsertCheck} {parsed : ParsedHeader H}
    (hOk : verifyHeaderExtension expectedPrev header difficulty = .ok parsed) :
    verifyDeclaredPow header = .ok parsed ∧ parsed.prevHash = expectedPrev := by
  unfold verifyHeaderExtension at hOk
  dsimp only at hOk
  split at hOk
  · cases hOk
  · cases hLink : verifyLink expectedPrev header with
    | error e =>
      rw [hLink] at hOk
      cases hOk
    | ok own =>
      rw [hLink] at hOk
      cases hOk
      exact verifyLink_eq_ok hLink

end OptnWallet
