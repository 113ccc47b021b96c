import OptnWallet.Core.Fusion.Schnorr
import OptnWallet.Library.ScalarSchemes

/-
  Commitments to the amounts of the components of a fusion round.

  Main declarations:
    * `Pedersen.Setup`
    * `Pedersen.commitPointSigned`
    * `Pedersen.encodeUncompressed`
-/

namespace OptnWallet.Pedersen

open Schnorr (Curve)

/-
  The second generator of a curve, and the encoding of points in 65 bytes, which the curve reads
  back.
-/
structure Setup {n : Nat} {Point : Type} [AddCommGroup Point] [Module (ZMod n) Point]
    (curve : Curve n Point) where
  h : Point
  encodePoint : Point → Vector UInt8 65
  h_ne_zero : h ≠ 0
  parse_encode : ∀ point, point ≠ 0 → curve.parsePoint (encodePoint point).toList = .ok point

variable {n : Nat} {Point : Type} [AddCommGroup Point] [Module (ZMod n) Point]
variable {curve : Curve n Point} (setup : Setup curve)

/- A negative amount is the negative of its absolute value. -/
def scalarFromI64 (v : Int64) : ZMod n :=
  if 0 ≤ v.toInt then (v.toInt.natAbs : ZMod n)
  else -(v.toInt.natAbs : ZMod n)

def commitPoint (amount : UInt64) (nonce : ZMod n) : Point :=
  Commitments.commit setup.h curve.generator (amount.toNat : ZMod n) nonce

def commitPointSigned (amount : Int64) (nonce : ZMod n) : Point :=
  Commitments.commit setup.h curve.generator (scalarFromI64 amount) nonce

/- The identity is encoded in one byte, and the copy into 65 bytes panics. -/
def encodeUncompressed [DecidableEq Point] (point : Point) :
    Except (Fault String) (Vector UInt8 65) :=
  if point = 0 then .error .panic
  else .ok (setup.encodePoint point)

theorem scalarFromI64_eq (v : Int64) : (scalarFromI64 v : ZMod n) = ((v.toInt : Int) : ZMod n) := by
  unfold scalarFromI64
  split
  · rename_i hNonneg
    rw [← Int.cast_natCast, Int.natAbs_of_nonneg hNonneg]
  · rename_i hNeg
    have hAbs : (v.toInt.natAbs : Int) = -v.toInt := Int.ofNat_natAbs_of_nonpos (by omega)
    rw [← Int.cast_natCast, hAbs, Int.cast_neg, neg_neg]

end OptnWallet.Pedersen
