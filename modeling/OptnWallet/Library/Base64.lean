import Mathlib.Algebra.Order.Ring.Nat

/-
  Base64 in the standard alphabet, padded, where a reader accepts no other text than the one that
  is written.

  Main declarations:
    * `Base64.encode` and `Base64.decode`
    * `Base64.decode_of_encode`
    * `Base64.length_encode`
-/

--- Symbols

namespace Base64

/- The symbol of six bits. -/
def symbol (n : Nat) : Char :=
  if n < 26 then Char.ofNat (n + 65)
  else if n < 52 then Char.ofNat (n + 71)
  else if n < 62 then Char.ofNat (n - 4)
  else if n = 62 then '+'
  else '/'

/- The six bits of a symbol. -/
def digit (c : Char) : Option Nat :=
  if 65 ≤ c.toNat ∧ c.toNat ≤ 90 then some (c.toNat - 65)
  else if 97 ≤ c.toNat ∧ c.toNat ≤ 122 then some (c.toNat - 71)
  else if 48 ≤ c.toNat ∧ c.toNat ≤ 57 then some (c.toNat + 4)
  else if c = '+' then some 62
  else if c = '/' then some 63
  else none

theorem symbol_spec :
    ∀ n < 64,
      digit (symbol n) = some n ∧ symbol n ≠ '=' ∧
        symbol n ≠ Char.ofNat 35 ∧ (symbol n).utf8Size = 1 := by
  decide

--- Texts

/- Three bytes are four symbols, and fewer are padded. -/
def encode : List UInt8 → List Char
  | [] => []
  | [a] => [symbol (a.toNat / 4), symbol (a.toNat % 4 * 16), '=', '=']
  | [a, b] =>
    [symbol (a.toNat / 4), symbol (a.toNat % 4 * 16 + b.toNat / 16), symbol (b.toNat % 16 * 4), '=']
  | a :: b :: c :: rest => symbol (a.toNat / 4) :: symbol (a.toNat % 4 * 16 + b.toNat / 16) ::
      symbol (b.toNat % 16 * 4 + c.toNat / 64) :: symbol (c.toNat % 64) :: encode rest

/- One or two bytes before the padding.  The bits that they leave over are zero. -/
def decodeTail (c0 c1 c2 : Char) : Option (List UInt8) := do
  let s0 ← digit c0
  let s1 ← digit c1
  if c2 = '=' then
    if s1 % 16 = 0 then some [UInt8.ofNat (s0 * 4 + s1 / 16)]
    else none
  else do
    let s2 ← digit c2
    if s2 % 4 = 0 then some [UInt8.ofNat (s0 * 4 + s1 / 16), UInt8.ofNat (s1 % 16 * 16 + s2 / 4)]
    else none

def decode : List Char → Option (List UInt8)
  | [] => some []
  | c0 :: c1 :: c2 :: c3 :: rest =>
    if rest.isEmpty ∧ c3 = '=' then decodeTail c0 c1 c2
    else do
      let s0 ← digit c0
      let s1 ← digit c1
      let s2 ← digit c2
      let s3 ← digit c3
      let tail ← decode rest
      some (UInt8.ofNat (s0 * 4 + s1 / 16) :: UInt8.ofNat (s1 % 16 * 16 + s2 / 4) ::
          UInt8.ofNat (s2 % 4 * 64 + s3) :: tail)
  | _ => none

--- Round Trip

theorem byte_of_digits (byte : UInt8) {high low : Nat} (hByte : high + low = byte.toNat) :
    UInt8.ofNat (high + low) = byte := by
  rw [hByte, UInt8.ofNat_toNat]

variable (bytes : List UInt8)

/- By the recursion of the encoder. -/
theorem decode_of_encode : decode (encode bytes) = some bytes := by
  induction bytes using encode.induct with
  | case1 => rfl
  | case2 a =>
    have hA := a.toNat_lt
    rcases symbol_spec (a.toNat / 4) (by omega) with ⟨h0, -⟩
    rcases symbol_spec (a.toNat % 4 * 16) (by omega) with ⟨h1, -⟩
    unfold encode decode decodeTail
    rw [if_pos ⟨rfl, rfl⟩, h0, h1]
    simp only [Option.bind_eq_bind, Option.bind_some, if_true]
    rw [if_pos (by omega), byte_of_digits a (by omega)]
  | case3 a b =>
    have hA := a.toNat_lt
    have hB := b.toNat_lt
    rcases symbol_spec (a.toNat / 4) (by omega) with ⟨h0, -⟩
    rcases
        symbol_spec (a.toNat % 4 * 16 + b.toNat / 16)
          (by omega) with
      ⟨h1, -⟩
    rcases symbol_spec (b.toNat % 16 * 4) (by omega) with ⟨h2, hPad, -⟩
    unfold encode decode decodeTail
    rw [if_pos ⟨rfl, rfl⟩, h0, h1, h2]
    simp only [Option.bind_eq_bind, Option.bind_some, if_neg hPad]
    rw [if_pos (by omega), byte_of_digits a (by omega), byte_of_digits b (by omega)]
  | case4 a b c rest ih =>
    have hA := a.toNat_lt
    have hB := b.toNat_lt
    have hC := c.toNat_lt
    rcases symbol_spec (a.toNat / 4) (by omega) with ⟨h0, -⟩
    rcases
        symbol_spec (a.toNat % 4 * 16 + b.toNat / 16)
          (by omega) with
      ⟨h1, -⟩
    rcases
        symbol_spec (b.toNat % 16 * 4 + c.toNat / 64)
          (by omega) with
      ⟨h2, -⟩
    rcases symbol_spec (c.toNat % 64) (by omega) with ⟨h3, hPad, -⟩
    unfold encode decode
    rw [if_neg (fun hEnd => hPad hEnd.2), h0, h1, h2, h3, ih]
    simp only [Option.bind_eq_bind, Option.bind_some]
    rw [byte_of_digits a (by omega), byte_of_digits b (by omega), byte_of_digits c (by omega)]

/- Four symbols for each three bytes that are begun. -/
theorem length_encode : (encode bytes).length = 4 * ((bytes.length + 2) / 3) := by
  induction bytes using encode.induct with
  | case1 => rfl
  | case2 a => simp [encode]
  | case3 a b => simp [encode]
  | case4 a b c rest ih =>
    unfold encode
    simp only [List.length_cons, ih]
    omega

/- The text is of one-byte characters, none of them a hash. -/
theorem plain_encode : ∀ c ∈ encode bytes, c ≠ Char.ofNat 35 ∧ c.utf8Size = 1 := by
  have hSymbol (n : Nat) (hSmall : n < 64) : symbol n ≠ Char.ofNat 35 ∧ (symbol n).utf8Size = 1 :=
    (symbol_spec n hSmall).2.2
  have hPad : '=' ≠ Char.ofNat 35 ∧ ('=' : Char).utf8Size = 1 := by decide
  induction bytes using encode.induct with
  | case1 => simp [encode]
  | case2 a =>
    have hA := a.toNat_lt
    unfold encode
    simp only [List.forall_mem_cons]
    exact ⟨hSymbol _ (by omega), hSymbol _ (by omega), hPad, hPad, by simp⟩
  | case3 a b =>
    have hA := a.toNat_lt
    have hB := b.toNat_lt
    unfold encode
    simp only [List.forall_mem_cons]
    exact ⟨hSymbol _ (by omega), hSymbol _ (by omega), hSymbol _ (by omega), hPad, by simp⟩
  | case4 a b c rest ih =>
    have hA := a.toNat_lt
    have hB := b.toNat_lt
    have hC := c.toNat_lt
    unfold encode
    simp only [List.forall_mem_cons]
    exact
      ⟨hSymbol _ (by omega), hSymbol _ (by omega), hSymbol _ (by omega), hSymbol _ (by omega), ih⟩

end Base64
