import Mathlib.Algebra.Field.ZMod
import Mathlib.Algebra.Module.Basic
import OptnWallet.Core.Rpa.Payment

/-
  Schnorr signatures of which only the x coordinate of the nonce point travels, and the blind
  signatures of a fusion round over them.

  The group of the curve comes from a dependency.

  Main declarations:
    * `Schnorr.Curve`
    * `Schnorr.verify`
    * `Schnorr.BlindSignatureRequest`
    * `Schnorr.BlindIssuer`
-/

--- Residues

namespace OptnWallet.Schnorr

/- The prime of the field, not the order of the group. -/
def fieldP : Nat := 0xfffffffffffffffffffffffffffffffffffffffffffffffffffffffefffffc2f

/- The exponent is halved for as long as there is fuel. -/
def modpow (modulus : Nat) : Nat → Nat → Nat → Nat
  | 0, _, _ => 1 % modulus
  | fuel + 1, base, exponent =>
    if exponent = 0 then 1 % modulus
    else
      let rest := modpow modulus fuel (base * base % modulus) (exponent / 2)
      if exponent % 2 = 1 then base * rest % modulus
      else rest

/- A residue that is not zero. -/
@[irreducible]
def yIsQuadraticResidue (yBe : Vector UInt8 32) : Bool :=
  modpow fieldP 256 (natOfBytesBE yBe.toList) ((fieldP - 1) / 2) == 1

--- Points And Scalars

/-
  A group of prime order whose points are on the curve.  The identity has no coordinates and no
  encoding of 33 bytes.  Of a point and its negative, which have the same x coordinate, exactly
  one has a residue as its y coordinate.
-/
structure Curve (n : Nat) (Point : Type) [AddCommGroup Point] [Module (ZMod n) Point] where
  prime : n.Prime
  order_le : n ≤ 2 ^ 256
  generator : Point
  encode : Point → Vector UInt8 33
  parsePoint : List UInt8 → Except String Point
  affine : Point → Vector UInt8 32 × Vector UInt8 32
  generator_ne_zero : generator ≠ 0
  parse_encode : ∀ point, point ≠ 0 → parsePoint (encode point).toList = .ok point
  x_neg : ∀ point, point ≠ 0 → (affine (-point)).1 = (affine point).1
  residue_neg :
    ∀ point,
    point ≠ 0 → yIsQuadraticResidue (affine (-point)).2 = !yIsQuadraticResidue (affine point).2

/- The big-endian bytes of a scalar. -/
def toBytes {n : Nat} (scalar : ZMod n) : Vector UInt8 32 := Rpa.scalarBytes scalar.val

def scalarReduce {n : Nat} (bytes : Vector UInt8 32) : ZMod n := (natOfBytesBE bytes.toList : Nat)

/- Only bytes below the order are a scalar. -/
def fromRepr {n : Nat} (bytes : Vector UInt8 32) : Option (ZMod n) :=
  if natOfBytesBE bytes.toList < n then some (scalarReduce bytes)
  else none

variable {n : Nat} {Point : Type} [AddCommGroup Point] [Module (ZMod n) Point] [DecidableEq Point]
variable (curve : Curve n Point) (sha256 : List UInt8 → Vector UInt8 32)

/- The identity is encoded in one byte, and the copy into 33 bytes panics. -/
def compressed (point : Point) : Except (Fault String) (Vector UInt8 33) :=
  if point = 0 then .error .panic
  else .ok (curve.encode point)

def affineXy (point : Point) : Except (Fault String) (Vector UInt8 32 × Vector UInt8 32) :=
  if point = 0 then .error .panic
  else .ok (curve.affine point)

--- Signatures

/- The two halves of the 64 bytes. -/
structure Signature where
  rx : Vector UInt8 32
  s : Vector UInt8 32
deriving DecidableEq

def challenge (rx : Vector UInt8 32) (pubkeyPoint : Point) (msg32 : Vector UInt8 32) :
    Except (Fault String) (ZMod n) := do
  let pubkey ← compressed curve pubkeyPoint
  .ok (scalarReduce (sha256 (rx.toList ++ pubkey.toList ++ msg32.toList)))

/- Whether a recovered point is one that a signer makes, with the x coordinate that came. -/
def matchesPoint (r : Point) (rbytes : Vector UInt8 32) : Except (Fault String) Bool :=
  if r = 0 then .ok false
  else do
    let xy ← affineXy curve r
    if yIsQuadraticResidue xy.2 then .ok (decide (xy.1 = rbytes))
    else .ok false

def verify (pubkey : List UInt8) (sig : Signature) (msg32 : Vector UInt8 32) :
    Except (Fault String) Bool :=
  match curve.parsePoint pubkey with
  | .error _ => .ok false
  | .ok p =>
    match fromRepr (n := n) sig.s with
    | none => .ok false
    | some s => do
        let e ← challenge curve sha256 sig.rx p msg32
        matchesPoint curve (s • curve.generator - e • p) sig.rx

--- Requests

/- `signFlip` is set where the sign is minus one. -/
structure BlindSignatureRequest (n : Nat) (Point : Type) where
  pubkeyPoint : Point
  messageHash : Vector UInt8 32
  a : ZMod n
  rxNew : Vector UInt8 32
  signFlip : Bool
  e : ZMod n

namespace BlindSignatureRequest

def newWithBlinding (roundPubkey r : List UInt8) (messageHash : Vector UInt8 32) (a b : ZMod n) :
    Except (Fault String) (BlindSignatureRequest n Point) := do
  let pubkeyPoint ← (curve.parsePoint roundPubkey).mapError Fault.error
  let rPoint ← (curve.parsePoint r).mapError Fault.error
  let rNew := rPoint + a • curve.generator + b • pubkeyPoint
  if rNew = 0 then .error (.error "blinded R is the identity — retry")
  else do
    let xy ← affineXy curve rNew
    let signFlip := !yIsQuadraticResidue xy.2
    let eHash ← challenge curve sha256 xy.1 pubkeyPoint messageHash
    let cEHash := if signFlip then -eHash else eHash
    .ok { pubkeyPoint, messageHash, a, rxNew := xy.1, signFlip, e := cEHash + b }

section

variable (self : BlindSignatureRequest n Point)

def request : Vector UInt8 32 := toBytes self.e

/- The answer without the blinding factor, under the sign. -/
def unblind (sResponse : Vector UInt8 32) : Signature :=
  let sA := scalarReduce sResponse + self.a
  { rx := self.rxNew
    s := toBytes (if self.signFlip then -sA else sA) }

def finalize (sResponse : Vector UInt8 32) (check : Bool) : Except (Fault String) Signature :=
  let sig := self.unblind sResponse
  if check then do
    let pubkey ← compressed curve self.pubkeyPoint
    let valid ← verify curve sha256 pubkey.toList sig self.messageHash
    if valid then .ok sig
    else .error (.error "blind signature verification failed — issuer cheated")
  else .ok sig

end

end BlindSignatureRequest

--- Issuers

/- A slot is empty once it was used. -/
structure BlindIssuer (n : Nat) where
  x : ZMod n
  nonces : List (Option (ZMod n))

namespace BlindIssuer

def fromParts (x : ZMod n) (nonces : List (ZMod n)) : Except String (BlindIssuer n) :=
  if nonces = [] then .error "BlindIssuer needs at least one nonce slot"
  else if 1024 < nonces.length then .error "BlindIssuer refuses more than 1024 nonce slots"
  else .ok { x, nonces := nonces.map some }

section

variable (self : BlindIssuer n)

def pubkey : Except (Fault String) (Vector UInt8 33) :=
  compressed curve (self.x • curve.generator)

def rPoint (index : Nat) : Except (Fault String) (Vector UInt8 33) :=
  match self.nonces[index]? with
  | some (some k) => compressed curve (k • curve.generator)
  | _ => .error (.error ("blind nonce slot " ++ toString index ++ " is missing or already used"))

def rPoints : Except (Fault String) (List (Option (Vector UInt8 33))) :=
  self.nonces.mapM
    (fun slot =>
      match slot with
      | some k => (compressed curve (k • curve.generator)).map some
      | none => .ok none)

def capacity : Nat := self.nonces.length

/- The answer, and the issuer without the nonce. -/
def sign (index : Nat) (eBytes : Vector UInt8 32) :
    Except String (Vector UInt8 32) × BlindIssuer n :=
  match self.nonces[index]? with
  | none => (.error ("blind nonce index " ++ toString index ++ " out of range"), self)
  | some none => (.error ("blind nonce slot " ++ toString index ++ " already used"), self)
  | some (some k) => (.ok (toBytes (k + scalarReduce eBytes * self.x)),
      { x := self.x, nonces := self.nonces.set index none })

end

end BlindIssuer

end OptnWallet.Schnorr
