import Mathlib.Algebra.Order.Ring.Nat
import Mathlib.Data.Nat.ModEq

/-
  A group whose points are public keys: a generator of known order, scalars that are private keys,
  and an encoding of its points.  Two parties that hold a scalar each compute one point from the
  public key of the other.

  Main declarations:
    * `KeyGroup` and `KeyGroup.SecretKey`
    * `KeyGroup.agree`
    * `KeyGroup.publicPoint_add`
    * `KeyGroup.ofTable`
-/

--- Groups

/-
  The zero point has no public key and its encoding does not decode.  Scalars are below the order.
-/
structure KeyGroup where
  Point : Type
  order : Nat
  zero : Point
  generator : Point
  add : Point → Point → Point
  mul : Nat → Point → Point
  encode : Point → List UInt8
  decode : Vector UInt8 33 → Option Point
  xCoordinate : Point → Option (Vector UInt8 32)
  order_le : order ≤ 2 ^ 256
  mul_comm : ∀ a b point, mul a (mul b point) = mul b (mul a point)
  add_mul : ∀ a b, add (mul a generator) (mul b generator) = mul ((a + b) % order) generator
  mul_ne_zero : ∀ a, 0 < a → a < order → mul a generator ≠ zero
  mul_zero : mul 0 generator = zero
  decode_encode :
    ∀ point, point ≠ zero → ∃ bytes, encode point = bytes.toList ∧ decode bytes = some point

namespace KeyGroup

/- A scalar with a public key. -/
structure SecretKey (group : KeyGroup) where
  scalar : Nat
  pos : 0 < scalar
  lt : scalar < group.order

variable {group : KeyGroup}

namespace SecretKey

def ofScalar (group : KeyGroup) (scalar : Nat) : Option group.SecretKey :=
  if hRange : 0 < scalar ∧ scalar < group.order then
    some { scalar, pos := hRange.1, lt := hRange.2 }
  else none

theorem ofScalar_scalar (key : group.SecretKey) : ofScalar group key.scalar = some key :=
  dif_pos ⟨key.pos, key.lt⟩

theorem ofScalar_eq_some {scalar : Nat} {key : group.SecretKey}
    (hSome : ofScalar group scalar = some key) : key.scalar = scalar := by
  unfold ofScalar at hSome
  split at hSome
  · cases hSome
    rfl
  · cases hSome

def publicPoint (key : group.SecretKey) : group.Point := group.mul key.scalar group.generator

theorem publicPoint_ne_zero (key : group.SecretKey) : key.publicPoint ≠ group.zero :=
  group.mul_ne_zero key.scalar key.pos key.lt

end SecretKey

/- The bytes are the encoded public key of the secret key. -/
def IsPublicKey (bytes : Vector UInt8 33) (key : group.SecretKey) : Prop :=
  group.encode key.publicPoint = bytes.toList ∧ group.decode bytes = some key.publicPoint

theorem exists_publicKey (key : group.SecretKey) : ∃ bytes, IsPublicKey bytes key :=
  group.decode_encode key.publicPoint key.publicPoint_ne_zero

/- Both parties reach the same point. -/
theorem agree (key other : group.SecretKey) :
    group.mul key.scalar other.publicPoint = group.mul other.scalar key.publicPoint :=
  group.mul_comm key.scalar other.scalar group.generator

/- A tweak moves the scalar and the public point alike. -/
theorem publicPoint_add {key child : group.SecretKey} {tweak : Nat}
    (hChild : child.scalar = (key.scalar + tweak) % group.order) :
    group.add key.publicPoint (group.mul tweak group.generator) = child.publicPoint := by
  unfold SecretKey.publicPoint
  rw [group.add_mul, hChild]

/- A tweaked point with a public key has a secret key. -/
theorem exists_child {key : group.SecretKey} {tweak : Nat}
    (hNonzero : group.add key.publicPoint (group.mul tweak group.generator) ≠ group.zero) :
    ∃ child : group.SecretKey, child.scalar = (key.scalar + tweak) % group.order := by
  have hOrder : 0 < group.order := lt_of_le_of_lt (Nat.zero_le _) key.lt
  refine
    ⟨{ scalar := (key.scalar + tweak) % group.order, pos := ?_, lt := Nat.mod_lt _ hOrder }, rfl⟩
  apply Nat.pos_of_ne_zero
  intro hZero
  apply hNonzero
  unfold SecretKey.publicPoint
  rw [group.add_mul, hZero, group.mul_zero]

--- Groups Given By Logarithms

/- Some points with their encodings. -/
abbrev Table : Type := List (Nat × Vector UInt8 33)

namespace Table

/- The encoding in the table, or a tag and the logarithm. -/
def encode (table : Table) (tagged : Nat → Vector UInt8 33) (point : Nat) : Vector UInt8 33 :=
  match table.find? (fun entry => entry.1 = point) with
  | some entry => entry.2
  | none => tagged point

def decode (table : Table) (untagged : Vector UInt8 33 → Option Nat) (bytes : Vector UInt8 33) :
    Option Nat :=
  match table.find? (fun entry => entry.2 = bytes) with
  | some entry => some entry.1
  | none => untagged bytes

/- No encoding stands for two points. -/
structure Unambiguous (table : Table) (order : Nat) (tagged : Nat → Vector UInt8 33)
    (untagged : Vector UInt8 33 → Option Nat) : Prop where
  entries : ∀ entry ∈ table, table.find? (fun other => other.2 = entry.2) = some entry
  fresh : ∀ point < order, ∀ entry ∈ table, entry.2 ≠ tagged point
  roundTrip : ∀ point < order, untagged (tagged point) = some point

theorem decode_encode_lt {table : Table} {order : Nat} {tagged : Nat → Vector UInt8 33}
    {untagged : Vector UInt8 33 → Option Nat} (hTable : table.Unambiguous order tagged untagged)
    {point : Nat} (hPoint : point < order) :
    table.decode untagged (table.encode tagged point) = some point := by
  unfold encode
  cases hFind :
      table.find? (fun entry => entry.1 = point) with
  | some entry =>
    have hMem := List.mem_of_find?_eq_some hFind
    have hSame := List.find?_some hFind
    unfold decode
    rw [hTable.entries entry hMem]
    exact congrArg some (of_decide_eq_true hSame)
  | none =>
    have hAbsent : table.find? (fun entry => entry.2 = tagged point) = none := by
      apply List.find?_eq_none.mpr
      intro entry hMem
      rw [decide_eq_true_eq]
      exact hTable.fresh point hPoint entry hMem
    unfold decode
    dsimp only
    rw [hAbsent]
    exact hTable.roundTrip point hPoint

end Table

/-
  Logarithms instead of points: every group of this order has the same laws.  The table gives
  points their encodings, and what follows the first byte is the coordinate.
-/
def ofTable (order : Nat) (table : Table) (tagged : Nat → Vector UInt8 33)
    (untagged : Vector UInt8 33 → Option Nat) (hOrder : 1 < order) (hOrderLe : order ≤ 2 ^ 256)
    (hTable : table.Unambiguous order tagged untagged) : KeyGroup where
  Point := Fin order
  order := order
  zero := ⟨0, Nat.lt_of_succ_lt hOrder⟩
  generator := ⟨1, hOrder⟩
  add a b := ⟨(a.val + b.val) % order, Nat.mod_lt _ (Nat.lt_of_succ_lt hOrder)⟩
  mul scalar point := ⟨scalar * point.val % order, Nat.mod_lt _ (Nat.lt_of_succ_lt hOrder)⟩
  encode point :=
    if point.val = 0 then [0]
    else (table.encode tagged point.val).toList
  decode bytes :=
    (table.decode untagged bytes).bind
      (fun point =>
        if hPoint : point < order then some ⟨point, hPoint⟩
        else none)
  xCoordinate point :=
    if point.val = 0 then none
    else some (table.encode tagged point.val).tail
  order_le := hOrderLe
  mul_comm a b point := by
    apply Fin.ext
    dsimp only
    rw [Nat.mul_mod_mod, Nat.mul_mod_mod, Nat.mul_left_comm]
  add_mul a b := by
    apply Fin.ext
    dsimp only
    rw [Nat.mul_one, Nat.mul_one, Nat.mul_one, Nat.mod_mod]
    exact (Nat.add_mod a b order).symm
  mul_ne_zero a hPos hLt hZero := by
    have hVal := congrArg Fin.val hZero
    dsimp only at hVal
    rw [Nat.mul_one, Nat.mod_eq_of_lt hLt] at hVal
    omega
  mul_zero := by
    apply Fin.ext
    dsimp only
    rw [Nat.zero_mul, Nat.zero_mod]
  decode_encode point hPoint := by
    have hVal : point.val ≠ 0 := by
      intro hZero
      apply hPoint
      exact Fin.ext hZero
    refine ⟨table.encode tagged point.val, if_neg hVal, ?_⟩
    rw [Table.decode_encode_lt hTable point.isLt]
    exact dif_pos point.isLt

/- There the public key is what the table has. -/
theorem isPublicKey_ofTable {order : Nat} {table : Table} {tagged : Nat → Vector UInt8 33}
    {untagged : Vector UInt8 33 → Option Nat} {hOrder : 1 < order} {hOrderLe : order ≤ 2 ^ 256}
    (hTable : table.Unambiguous order tagged untagged)
    (key : (ofTable order table tagged untagged hOrder hOrderLe hTable).SecretKey) :
    IsPublicKey (table.encode tagged key.scalar) key := by
  have hLt : key.scalar < order := key.lt
  have hPoint : key.publicPoint = (⟨key.scalar, hLt⟩ : Fin order) := by
    apply Fin.ext
    change key.scalar * 1 % order = key.scalar
    rw [Nat.mul_one, Nat.mod_eq_of_lt hLt]
  constructor
  · rw [hPoint]
    exact if_neg key.pos.ne'
  · rw [hPoint]
    change (table.decode untagged (table.encode tagged key.scalar)).bind _ = _
    rw [Table.decode_encode_lt hTable hLt]
    exact dif_pos hLt

end KeyGroup
