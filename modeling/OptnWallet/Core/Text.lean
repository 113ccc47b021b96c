import Mathlib.Algebra.Order.Ring.Nat

/-
  Text as the wallet compares and displays it, and records that are stored as JSON text.  That
  codec is a dependency: what is relied on is that it reads back what it has written.

  Main declarations:
    * `Text.trim` and `Text.isBlank`
    * `Text.hexEncode`
    * `SerdeJson` and `SerdeJson.RoundTrips`
-/

namespace OptnWallet.Text

/- The characters with the Unicode property White_Space. -/
def isWhitespace (c : Char) : Bool :=
  let code := c.val.toNat
  (9 ≤ code ∧ code ≤ 13) ∨ code = 0x20 ∨ code = 0x85 ∨
    code = 0xa0 ∨ code = 0x1680 ∨
      (0x2000 ≤ code ∧ code ≤ 0x200a) ∨ code = 0x2028 ∨
        code = 0x2029 ∨ code = 0x202f ∨ code = 0x205f ∨ code = 0x3000

def trim (text : String) : String :=
  String.ofList ((text.toList.dropWhile isWhitespace).reverse.dropWhile isWhitespace).reverse

/- Nothing is left when the text is trimmed. -/
def isBlank (text : String) : Bool := text.toList.all isWhitespace

def hexDigit (value : Nat) : Char :=
  ("0123456789abcdef".toList[value]?).getD '0'

def hexEncode (bytes : List UInt8) : String :=
  String.ofList
    (bytes.flatMap (fun byte => [hexDigit (byte.toNat / 16), hexDigit (byte.toNat % 16)]))

end OptnWallet.Text

--- Stored Records

namespace OptnWallet

/-
  The JSON codec of a record type, which comes from a dependency: writing can fail, and so can
  reading.
-/
structure SerdeJson (α : Type) where
  toString : α → Option String
  fromStr : String → Option α

/- What is written is read back. -/
def SerdeJson.RoundTrips {α : Type} (codec : SerdeJson α) : Prop :=
  ∀ record json, codec.toString record = some json → codec.fromStr json = some record

/- The part of a codec that one record exercises. -/
def SerdeJson.single {α : Type} [DecidableEq α] (record : α) (json : String) : SerdeJson α :=
  { toString := fun written =>
      if written = record then some json else none
    fromStr := fun read =>
      if read = json then some record else none }

variable {α : Type}

theorem SerdeJson.single_eq_some [DecidableEq α] {record written : α} {json text : String}
    (hWritten : (single record json).toString written = some text) :
    written = record ∧ text = json := by
  unfold single at hWritten
  dsimp only at hWritten
  split at hWritten
  · rename_i hSame
    cases hWritten
    exact ⟨hSame, rfl⟩
  · cases hWritten

variable (record : α)

theorem SerdeJson.single_toString [DecidableEq α] (json : String) :
    (single record json).toString record = some json := if_pos rfl

theorem SerdeJson.single_fromStr [DecidableEq α] (json : String) :
    (single record json).fromStr json = some record := if_pos rfl

theorem SerdeJson.single_roundTrips [DecidableEq α] (json : String) :
    (single record json).RoundTrips := by
  intro written text hWritten
  rcases single_eq_some hWritten with ⟨rfl, rfl⟩
  exact single_fromStr written text

end OptnWallet
