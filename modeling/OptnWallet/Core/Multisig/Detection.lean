import OptnWallet.Core.Multisig.RoundTrip

/-
  One character of a descriptor, replaced by another.  A character is fed as its low part, and
  three of them as one more symbol of their high parts, so replacing it changes one short run of
  the symbols, and with them the checksum.

  Main declarations:
    * `Multisig.descriptorRegister` and `descriptorPolymod_eq`
    * `Multisig.symbolsOf` and `symbolsOf_replaced`
    * `Multisig.finish_eq_feed`
    * `Multisig.descriptorChecksum_replaced`
    * `Multisig.replaced_character_detected`
-/

--- The Register

namespace OptnWallet

open TappedRegister

namespace Multisig

/- What a constant adds where its bit has left. -/
def generatorTap (top : UInt64) (entry : UInt64 × Nat) : UInt64 :=
  if (top >>> UInt64.ofNat entry.2) &&& 1 = 1 then entry.1
  else 0

def generatorTaps (entries : List (UInt64 × Nat)) (top : UInt64) : UInt64 :=
  (entries.map (generatorTap top)).foldr (· ^^^ ·) 0

/- The lowest bit of a word. -/
theorem bit_cases (word : UInt64) : word &&& 1 = 0 ∨ word &&& 1 = 1 := by
  have hOne : (1 : UInt64).toNat = 2 ^ 1 - 1 := by decide
  have hBit : (word &&& 1).toNat = word.toNat % 2 := by
    rw [UInt64.toNat_and, hOne, Nat.and_two_pow_sub_one_eq_mod, Nat.pow_one]
  rcases Nat.mod_two_eq_zero_or_one word.toNat with h | h
  · left
    exact UInt64.toNat_inj.mp (hBit.trans h)
  · right
    exact UInt64.toNat_inj.mp (hBit.trans h)

theorem generatorTap_xor (a b : UInt64) (entry : UInt64 × Nat) :
    generatorTap (a ^^^ b) entry = generatorTap a entry ^^^ generatorTap b entry := by
  unfold generatorTap
  rw [UInt64.shiftRight_xor, and_xor]
  rcases bit_cases (a >>> UInt64.ofNat entry.2) with hA | hA <;>
    rcases bit_cases (b >>> UInt64.ofNat entry.2) with hB | hB <;>
    simp [hA, hB]

/- By induction over the constants. -/
theorem generatorTaps_xor (entries : List (UInt64 × Nat)) (a b : UInt64) :
    generatorTaps entries (a ^^^ b) = generatorTaps entries a ^^^ generatorTaps entries b := by
  unfold generatorTaps
  induction entries with
  | nil => exact UInt64.xor_self.symm
  | cons entry entries ih =>
    simp only [List.map_cons, List.foldr_cons]
    rw [ih, generatorTap_xor]
    ac_rfl

theorem generatorTaps_lt {entries : List (UInt64 × Nat)}
    (hEntries : ∀ entry ∈ entries, entry.1.toNat < 2 ^ 40) (top : UInt64) :
    (generatorTaps entries top).toNat < 2 ^ 40 := by
  unfold generatorTaps
  induction entries with
  | nil => exact Nat.two_pow_pos 40
  | cons entry entries ih =>
    rw [List.forall_mem_cons] at hEntries
    rw [List.map_cons, List.foldr_cons]
    apply xor_lt
    · unfold generatorTap
      split
      · exact hEntries.1
      · decide
    · exact ih hEntries.2

/- The loop over the constants adds their taps. -/
theorem foldl_generator (entries : List (UInt64 × Nat)) (top chk : UInt64) :
    entries.foldl
        (fun chk entry =>
          if (top >>> UInt64.ofNat entry.2) &&& 1 = 1 then chk ^^^ entry.1
          else chk)
        chk =
      chk ^^^ generatorTaps entries top := by
  induction entries generalizing chk with
  | nil => exact UInt64.xor_zero.symm
  | cons entry entries ih =>
    have hCons :
        generatorTaps (entry :: entries) top =
          generatorTap top entry ^^^ generatorTaps entries top :=
      rfl
    rw [List.foldl_cons, ih, hCons, ← UInt64.xor_assoc]
    congr 1
    unfold generatorTap
    split
    · rfl
    · exact UInt64.xor_zero.symm

/- The register of a descriptor. -/
def descriptorRegister : TappedRegister where
  taps := generatorTaps descriptorGenerator.zipIdx
  linear := generatorTaps_xor descriptorGenerator.zipIdx
  lt := by
    intro a
    apply generatorTaps_lt
    decide
  low := by
    intro a hDigit hLow
    have hAll :
        ∀ digit < 2 ^ 5,
        (generatorTaps descriptorGenerator.zipIdx (UInt64.ofNat digit)).toNat % 2 ^ 5 = 0 →
          digit = 0 := by
      decide +kernel
    have hHere := hAll a.toNat hDigit
    rw [UInt64.ofNat_toNat] at hHere
    exact UInt64.toNat_inj.mp (hHere hLow)

theorem descriptorPolymod_eq (chk value : UInt64) :
    descriptorPolymod chk value = descriptorRegister.shift chk ^^^ value := by
  unfold descriptorPolymod
  dsimp only
  rw [foldl_generator]
  unfold shift descriptorRegister
  ac_rfl

--- Characters

def characterPosition (c : Char) : Nat := descriptorInputCharset.idxOf c

variable {c : Char}

theorem characterPosition_lt (hMem : c ∈ descriptorInputCharset) : characterPosition c < 96 := by
  have hLt := List.idxOf_lt_length_of_mem hMem
  have hLength : descriptorInputCharset.length = 95 := by
    rw [descriptorInputCharset_eq]
    rfl
  unfold characterPosition
  omega

theorem findIdx_characterPosition (hMem : c ∈ descriptorInputCharset) :
    descriptorInputCharset.findIdx? (fun x => decide (x = c)) = some (characterPosition c) := by
  have hSame : (fun x : Char => decide (x = c)) = (fun x => x == c) := by
    funext x
    rfl
  rw [hSame, List.findIdx?_eq_guard_findIdx_lt]
  exact Option.guard_eq_some_iff.mpr ⟨rfl, decide_eq_true (List.idxOf_lt_length_of_mem hMem)⟩

variable {a b : Char}

theorem characterPosition_inj (hA : a ∈ descriptorInputCharset)
    (hSame : characterPosition a = characterPosition b) : a = b := (List.idxOf_inj hA).mp hSame

--- Symbols

/- The low part of a character, and its high part. -/
def low (c : Char) : Nat := characterPosition c % 32

def high (c : Char) : Nat := characterPosition c / 32

/- The symbols of a text: the low part of each character, and the high parts of three at a time. -/
def symbolsOf : List Char → List Nat
  | a :: b :: c :: rest =>
    low a :: low b :: low c :: (high a * 9 + high b * 3 + high c) :: symbolsOf rest
  | [a, b] => [low a, low b, high a * 3 + high b]
  | [a] => [low a, high a]
  | [] => []

variable {text : List Char} (hText : ∀ c ∈ text, c ∈ descriptorInputCharset)

include hText in
theorem symbolsOf_lt : ∀ symbol ∈ symbolsOf text, symbol < 2 ^ 5 := by
  have hLow : ∀ c : Char, low c < 32 := fun c => Nat.mod_lt _ (by decide)
  have hHigh : ∀ c ∈ descriptorInputCharset, high c < 3 := by
    intro c hMem
    exact Nat.div_lt_of_lt_mul (characterPosition_lt hMem)
  induction text using symbolsOf.induct with
  | case1 a b c rest ih =>
    simp only [List.forall_mem_cons] at hText
    rcases hText with ⟨hA, hB, hC, hRest⟩
    have hHighA := hHigh a hA
    have hHighB := hHigh b hB
    have hHighC := hHigh c hC
    unfold symbolsOf
    simp only [List.forall_mem_cons]
    exact ⟨hLow a, hLow b, hLow c, by omega, ih hRest⟩
  | case2 a b =>
    simp only [List.forall_mem_cons] at hText
    have hHighA := hHigh a hText.1
    have hHighB := hHigh b hText.2.1
    unfold symbolsOf
    simp only [List.forall_mem_cons]
    exact ⟨hLow a, hLow b, by omega, List.forall_mem_nil _⟩
  | case3 a =>
    have hHighA := hHigh a (hText a List.mem_cons_self)
    unfold symbolsOf
    simp only [List.forall_mem_cons]
    exact ⟨hLow a, by omega, List.forall_mem_nil _⟩
  | case4 =>
    intro symbol hMem
    cases hMem

/- One character is in one group, and a group of characters is told by its symbols.  By induction
   over the groups in front of it. -/
theorem symbolsOf_replaced {x y : Char} (hParts : low x = low y → high x ≠ high y)
    (front back : List Char) :
    ∃ kept first second rest,
    symbolsOf (front ++ x :: back) = kept ++ first ++ rest ∧
      symbolsOf (front ++ y :: back) = kept ++ second ++ rest ∧
      first ≠ second ∧
      first.length = second.length ∧
      first.length ≤ 4 := by
  induction front using symbolsOf.induct with
  | case1 a b c front ih =>
    rcases ih with ⟨kept, first, second, rest, hFirst, hSecond, hRun⟩
    refine ⟨low a :: low b :: low c :: (high a * 9 + high b * 3 + high c) :: kept, first, second,
      rest, ?_, ?_, hRun⟩
    · simp only [List.cons_append, symbolsOf, hFirst]
    · simp only [List.cons_append, symbolsOf, hSecond]
  | case2 a b =>
    refine ⟨[], [low a, low b, low x, high a * 9 + high b * 3 + high x],
      [low a, low b, low y, high a * 9 + high b * 3 + high y], symbolsOf back, rfl, rfl, ?_, rfl,
      le_refl 4⟩
    intro hSame
    simp only [List.cons.injEq] at hSame
    omega
  | case3 a =>
    cases back with
    | nil =>
      refine
        ⟨[], [low a, low x, high a * 3 + high x], [low a, low y, high a * 3 + high y],
          [], rfl, rfl, ?_, rfl, (by decide : 3 ≤ 4)⟩
      intro hSame
      simp only [List.cons.injEq] at hSame
      omega
    | cons b back =>
      refine ⟨[], [low a, low x, low b, high a * 9 + high x * 3 + high b],
        [low a, low y, low b, high a * 9 + high y * 3 + high b], symbolsOf back, rfl, rfl, ?_, rfl,
        le_refl 4⟩
      intro hSame
      simp only [List.cons.injEq] at hSame
      omega
  | case4 =>
    rcases back with _ | ⟨a, _ | ⟨b, back⟩⟩
    · refine ⟨[], [low x, high x], [low y, high y], [], rfl, rfl, ?_, rfl, (by decide : 2 ≤ 4)⟩
      intro hSame
      simp only [List.cons.injEq] at hSame
      exact hParts hSame.1 hSame.2.1
    · refine
        ⟨[], [low x, low a, high x * 3 + high a], [low y, low a, high y * 3 + high a], [], rfl, rfl,
          ?_, rfl, (by decide : 3 ≤ 4)⟩
      intro hSame
      simp only [List.cons.injEq] at hSame
      omega
    · refine ⟨[], [low x, low a, low b, high x * 9 + high a * 3 + high b],
        [low y, low a, low b, high y * 9 + high a * 3 + high b], symbolsOf back, rfl, rfl, ?_, rfl,
        le_refl 4⟩
      intro hSame
      simp only [List.cons.injEq] at hSame
      omega

/- Symbols as the register is fed them. -/
def symbolWords (text : List Char) : List UInt64 := (symbolsOf text).map UInt64.ofNat

include hText in
theorem symbolWords_lt : ∀ symbol ∈ symbolWords text, symbol.toNat < 2 ^ 5 := by
  intro symbol hMem
  rcases List.mem_map.mp hMem with ⟨value, hValue, rfl⟩
  have hLt := symbolsOf_lt hText value hValue
  rw [UInt64.toNat_ofNat_of_lt' (lt_trans hLt (by decide))]
  exact hLt

theorem map_ofNat_inj {x y : List Nat} (hX : ∀ n ∈ x, n < 2 ^ 5) (hY : ∀ n ∈ y, n < 2 ^ 5)
    (hSame : x.map UInt64.ofNat = y.map UInt64.ofNat) : x = y := by
  have hBack :
      ∀ z : List Nat, (∀ n ∈ z, n < 2 ^ 5) → (z.map UInt64.ofNat).map UInt64.toNat = z := by
    intro z hZ
    rw [List.map_map]
    conv_rhs => rw [← List.map_id z]
    apply List.map_congr_left
    intro n hMem
    exact UInt64.toNat_ofNat_of_lt' (lt_trans (hZ n hMem) (by decide))
  rw [← hBack x hX, hSame, hBack y hY]

variable {front back : List Char}

theorem symbolWords_replaced {x y : Char} (hNe : x ≠ y)
    (hFirst : ∀ c ∈ front ++ x :: back, c ∈ descriptorInputCharset)
    (hSecond : ∀ c ∈ front ++ y :: back, c ∈ descriptorInputCharset) :
    DifferInRun (symbolWords (front ++ x :: back)) (symbolWords (front ++ y :: back)) := by
  have hX := symbolsOf_lt hFirst
  have hY := symbolsOf_lt hSecond
  have hMem : x ∈ descriptorInputCharset := hFirst x (List.mem_append_right _ List.mem_cons_self)
  have hParts : low x = low y → high x ≠ high y := by
    intro hLow hHigh
    apply hNe
    apply characterPosition_inj hMem
    unfold low at hLow
    unfold high at hHigh
    omega
  rcases symbolsOf_replaced hParts front back with
    ⟨kept, first, second, rest, hP, hQ, hRun, hLength, hShort⟩
  rw [hP, List.forall_mem_append, List.forall_mem_append] at hX
  rw [hQ, List.forall_mem_append, List.forall_mem_append] at hY
  refine ⟨kept.map UInt64.ofNat, first.map UInt64.ofNat, second.map UInt64.ofNat,
    rest.map UInt64.ofNat, ?_, ?_, ?_, ?_, ?_⟩
  · unfold symbolWords
    rw [hP, List.map_append, List.map_append]
  · unfold symbolWords
    rw [hQ, List.map_append, List.map_append]
  · intro hSame
    exact hRun (map_ofNat_inj hX.1.2 hY.1.2 hSame)
  · rw [List.length_map, List.length_map, hLength]
  · rw [List.length_map]
    omega

--- Feeding

/- The parts of a position, as the code takes them. -/
theorem ofNat_low {p : Nat} (hLt : p < 96) : UInt64.ofNat p &&& 31 = UInt64.ofNat (p % 32) := by
  have hNat : (UInt64.ofNat p).toNat = p := UInt64.toNat_ofNat_of_lt' (lt_trans hLt (by decide))
  have hDigit := toNat_digit (UInt64.ofNat p)
  apply UInt64.toNat_inj.mp
  rw [hNat] at hDigit
  rw [UInt64.toNat_ofNat_of_lt' (lt_trans (Nat.mod_lt p (by decide)) (by decide))]
  exact hDigit

theorem ofNat_high {p : Nat} (hLt : p < 96) : UInt64.ofNat p >>> 5 = UInt64.ofNat (p / 32) := by
  have hNat : (UInt64.ofNat p).toNat = p := UInt64.toNat_ofNat_of_lt' (lt_trans hLt (by decide))
  have hShift := toNat_shiftRight_ofNat (UInt64.ofNat p) (by decide : 5 < 64)
  apply UInt64.toNat_inj.mp
  rw [hNat] at hShift
  rw [UInt64.toNat_ofNat_of_lt' (lt_of_le_of_lt (Nat.div_le_self p 32) (lt_trans hLt (by decide)))]
  exact hShift

/- The register once a character is in it. -/
def feedLow (chk : UInt64) (c : Char) : UInt64 :=
  descriptorRegister.shift chk ^^^ UInt64.ofNat (low c)

/- What a character does to the state, where it does not complete a group. -/
theorem push_open {c : Char} (hMem : c ∈ descriptorInputCharset) (chk : UInt64)
    {groups : List UInt64} (hOpen : groups.length < 2) :
    ChecksumState.push { chk, groups } c = some
        { chk := feedLow chk c
          groups := groups ++ [UInt64.ofNat (high c)] } := by
  have hLt := characterPosition_lt hMem
  unfold ChecksumState.push
  rw [findIdx_characterPosition hMem]
  dsimp only [bind, Option.bind]
  rw [ofNat_low hLt, ofNat_high hLt, descriptorPolymod_eq]
  rcases groups with _ | ⟨x, _ | ⟨y, groups⟩⟩
  · rfl
  · rfl
  · simp only [List.length_cons] at hOpen
    omega

theorem push_third {c : Char} (hMem : c ∈ descriptorInputCharset) (chk x y : UInt64) :
    ChecksumState.push { chk, groups := [x, y] } c = some
        { chk :=
            descriptorRegister.shift (feedLow chk c) ^^^ (x * 9 + y * 3 + UInt64.ofNat (high c))
          groups := [] } := by
  have hLt := characterPosition_lt hMem
  unfold ChecksumState.push
  rw [findIdx_characterPosition hMem]
  dsimp only [bind, Option.bind]
  rw [ofNat_low hLt, ofNat_high hLt, descriptorPolymod_eq]
  dsimp only [List.cons_append, List.nil_append]
  rw [descriptorPolymod_eq]
  rfl

/- Eight zeros are fed in the end. -/
theorem foldl_zeros (chk : UInt64) :
    (List.replicate 8 0).foldl descriptorPolymod chk =
      descriptorRegister.feed chk (List.replicate 8 0) := by
  have hSame :
      descriptorPolymod = fun content symbol => descriptorRegister.shift content ^^^ symbol := by
    funext content symbol
    exact descriptorPolymod_eq content symbol
  rw [hSame]
  rfl

/- What three characters do to a state without a group. -/
theorem foldlM_three (hA : a ∈ descriptorInputCharset)
    (hB : b ∈ descriptorInputCharset) (hC : c ∈ descriptorInputCharset) (chk : UInt64)
    (rest : List Char) :
    (a :: b :: c :: rest).foldlM ChecksumState.push { chk, groups := [] } =
      rest.foldlM ChecksumState.push
        { chk :=
            descriptorRegister.shift (feedLow (feedLow (feedLow chk a) b) c) ^^^
              UInt64.ofNat (high a * 9 + high b * 3 + high c)
          groups := [] } := by
  rw [List.foldlM_cons, @push_open a hA chk [] Nat.two_pos, Option.bind_eq_bind, Option.bind_some,
    List.nil_append, List.foldlM_cons, @push_open b hB _ [UInt64.ofNat (high a)] Nat.one_lt_two,
    Option.bind_eq_bind, Option.bind_some, List.singleton_append, List.foldlM_cons,
    @push_third c hC _ _ _, Option.bind_eq_bind, Option.bind_some, UInt64.ofNat_add,
    UInt64.ofNat_add, UInt64.ofNat_mul, UInt64.ofNat_mul]
  rfl

/- Everything that is fed: the symbols, and eight zeros.  By induction over the groups of
   characters. -/
include hText in
theorem finish_eq_feed (chk : UInt64) :
    ∃ final,
      text.foldlM ChecksumState.push { chk, groups := [] } = some final ∧ final.finish =
          descriptorRegister.feed chk (symbolWords text ++ List.replicate 8 0) ^^^ 1 := by
  induction text using symbolsOf.induct generalizing chk with
  | case1 a b c rest ih =>
    simp only [List.forall_mem_cons] at hText
    rcases hText with ⟨hA, hB, hC, hRest⟩
    rcases ih hRest
      (descriptorRegister.shift (feedLow (feedLow (feedLow chk a) b) c) ^^^
        UInt64.ofNat (high a * 9 + high b * 3 + high c)) with ⟨final, hFinal, hFinish⟩
    refine ⟨final, ?_, ?_⟩
    · rw [foldlM_three hA hB hC]
      exact hFinal
    · rw [hFinish]
      simp only [symbolWords, symbolsOf, List.map_cons, List.cons_append, feed_cons, feedLow]
  | case2 a b =>
    simp only [List.forall_mem_cons] at hText
    refine
      ⟨{ chk := feedLow (feedLow chk a) b
         groups := [UInt64.ofNat (high a), UInt64.ofNat (high b)] }, ?_, ?_⟩
    · rw [List.foldlM_cons, @push_open a hText.1 chk [] Nat.two_pos, Option.bind_eq_bind,
        Option.bind_some, List.nil_append, List.foldlM_cons,
        @push_open b hText.2.1 _ [UInt64.ofNat (high a)] Nat.one_lt_two]
      rfl
    · have hThree :
          UInt64.ofNat (high a) * 3 + UInt64.ofNat (high b) =
            UInt64.ofNat (high a * 3 + high b) := by
        rw [UInt64.ofNat_add, UInt64.ofNat_mul]
        rfl
      unfold ChecksumState.finish
      dsimp only
      rw [foldl_zeros, descriptorPolymod_eq, hThree]
      simp only [symbolWords, symbolsOf, List.map_cons, List.map_nil, List.cons_append,
        List.nil_append, feed_cons, feedLow]
  | case3 a =>
    refine ⟨{ chk := feedLow chk a, groups := [UInt64.ofNat (high a)] }, ?_, ?_⟩
    · rw [List.foldlM_cons, @push_open a (hText a List.mem_cons_self) chk [] Nat.two_pos]
      rfl
    · unfold ChecksumState.finish
      dsimp only
      rw [foldl_zeros, descriptorPolymod_eq]
      simp only [symbolWords, symbolsOf, List.map_cons, List.map_nil, List.cons_append,
        List.nil_append, feed_cons, feedLow]
  | case4 =>
    refine ⟨{ chk, groups := [] }, rfl, ?_⟩
    unfold ChecksumState.finish
    dsimp only
    rw [foldl_zeros]
    rfl

--- Rendering

/- The eight characters of a register. -/
def checksumChars (chk : UInt64) : List Char :=
  (digits chk).map (fun symbol => (descriptorChecksumCharset[symbol.toNat]?).getD 'q')

theorem checksumChar_inj {a b : UInt64} (hA : a.toNat < 2 ^ 5) (hB : b.toNat < 2 ^ 5)
    (hSame :
        (descriptorChecksumCharset[a.toNat]?).getD 'q' =
          (descriptorChecksumCharset[b.toNat]?).getD 'q') : a = b := by
  have hAll :
      ∀ m < 2 ^ 5,
      ∀ n < 2 ^ 5,
        (descriptorChecksumCharset[m]?).getD 'q' = (descriptorChecksumCharset[n]?).getD 'q' →
          m = n := by
    decide +kernel
  exact UInt64.toNat_inj.mp (hAll _ hA _ hB hSame)

theorem checksumChars_inj {a b : UInt64} (hA : a.toNat < 2 ^ 40) (hB : b.toNat < 2 ^ 40)
    (hSame : checksumChars a = checksumChars b) : a = b := by
  have hDigits : digits a = digits b := by
    have hDigit :
        ∀ word : UInt64,
        ∀ i : Nat, ((word >>> UInt64.ofNat (5 * (7 - i))) &&& 0x1f).toNat < 2 ^ 5 := by
      intro word i
      rw [toNat_digit]
      exact Nat.mod_lt _ (Nat.two_pow_pos 5)
    unfold checksumChars digits at hSame
    rw [List.map_map, List.map_map, List.map_inj_left] at hSame
    unfold digits
    apply List.map_congr_left
    intro i hMem
    exact checksumChar_inj (hDigit a i) (hDigit b i) (hSame i hMem)
  rw [← @feed_digits_word descriptorRegister _ hA, hDigits, feed_digits_word hB]

/- The checksum of a text is that of what was fed. -/
def fed (text : List Char) : UInt64 :=
  descriptorRegister.feed 1 (symbolWords text ++ List.replicate 8 0)

include hText in
theorem descriptorChecksum_eq :
    descriptorChecksum text = some (checksumChars (fed text ^^^ 1)) := by
  rcases finish_eq_feed hText 1 with ⟨final, hFinal, hFinish⟩
  unfold descriptorChecksum
  rw [hFinal]
  unfold fed
  rw [← hFinish]
  unfold checksumChars digits
  rw [List.map_map]
  rfl

/- By induction over the text. -/
theorem mem_charset_of_foldlM {state final : ChecksumState}
    (hFinal : text.foldlM ChecksumState.push state = some final) :
    ∀ c ∈ text, c ∈ descriptorInputCharset := by
  induction text generalizing state with
  | nil => exact List.forall_mem_nil _
  | cons c text ih =>
    rw [List.foldlM_cons] at hFinal
    rcases Option.bind_eq_some_iff.mp hFinal with ⟨next, hPush, hRest⟩
    rcases Option.bind_eq_some_iff.mp hPush with ⟨position, hPosition, -⟩
    have hFound : (descriptorInputCharset.findIdx? (fun x => decide (x = c))).isSome = true := by
      rw [hPosition]
      rfl
    rw [List.findIdx?_isSome, List.any_eq_true] at hFound
    rcases hFound with ⟨x, hMem, hSame⟩
    rw [List.forall_mem_cons]
    exact ⟨of_decide_eq_true hSame ▸ hMem, ih hRest⟩

variable {checksum : List Char}

/- Only characters that are allowed have a checksum. -/
theorem mem_charset_of_descriptorChecksum (hChecksum : descriptorChecksum text = some checksum) :
    ∀ c ∈ text, c ∈ descriptorInputCharset := by
  have hFold : ∃ final, text.foldlM ChecksumState.push { chk := 1, groups := [] } = some final := by
    unfold descriptorChecksum at hChecksum
    rcases Option.bind_eq_some_iff.mp hChecksum with ⟨final, hFinal, -⟩
    exact ⟨final, hFinal⟩
  rcases hFold with ⟨final, hFinal⟩
  exact mem_charset_of_foldlM hFinal

include hText in
theorem fed_lt : (fed text).toNat < 2 ^ 40 := by
  apply feed_lt (by decide)
  intro symbol hMem
  rcases List.mem_append.mp hMem with hMem | hMem
  · exact lt_trans (symbolWords_lt hText symbol hMem) (by decide)
  · rw [(List.mem_replicate.mp hMem).2]
    decide

--- One Other Character

/- Two texts that differ in one character have two checksums. -/
theorem descriptorChecksum_replaced (hNe : a ≠ b)
    (hFirst : ∀ c ∈ front ++ a :: back, c ∈ descriptorInputCharset)
    (hSecond : ∀ c ∈ front ++ b :: back, c ∈ descriptorInputCharset) :
    descriptorChecksum (front ++ a :: back) ≠ descriptorChecksum (front ++ b :: back) := by
  intro hSame
  rw [descriptorChecksum_eq hFirst, descriptorChecksum_eq hSecond, Option.some.injEq] at hSame
  have hOne : (1 : UInt64).toNat < 2 ^ 40 := by decide
  have hFed := checksumChars_inj (xor_lt (fed_lt hFirst) hOne) (xor_lt (fed_lt hSecond) hOne) hSame
  rw [UInt64.xor_left_inj] at hFed
  have hFirstWords := symbolWords_lt hFirst
  have hSecondWords := symbolWords_lt hSecond
  have hZeros : ∀ symbol ∈ List.replicate 8 (0 : UInt64), symbol.toNat < 2 ^ 40 := by
    intro symbol hMem
    rw [(List.mem_replicate.mp hMem).2]
    decide
  unfold fed at hFed
  rw [feed_append, feed_append] at hFed
  have hWide :
      ∀ words : List UInt64,
      (∀ symbol ∈ words, symbol.toNat < 2 ^ 5) → ∀ symbol ∈ words, symbol.toNat < 2 ^ 40 := by
    intro words hWords symbol hMem
    exact lt_trans (hWords symbol hMem) (by decide)
  have hContents :=
    feed_contents_inj (feed_lt hOne (hWide _ hFirstWords))
      (feed_lt hOne (hWide _ hSecondWords)) hZeros hFed
  exact feed_run_ne hOne hFirstWords hSecondWords
    (symbolWords_replaced hNe hFirst hSecond) hContents

/- A text with a checksum is accepted with that one only. -/
theorem checkedBody_eq_ok_iff {body : List Char} (hMem : '#' ∉ checksum)
    {checked : List Char × Bool} :
    checkedBody (body ++ '#' :: checksum) = .ok checked ↔
    descriptorChecksum body = some checksum ∧ checked = (body, true) := by
  unfold checkedBody
  rw [rsplitOnce_append body hMem]
  dsimp only
  cases hChecksum : descriptorChecksum body with
  | none =>
    constructor
    · intro hOk
      cases hOk
    · intro hSome
      cases hSome.1
  | some expected =>
    dsimp only
    by_cases hSame : expected = checksum
    · rw [if_neg (not_not.mpr hSame)]
      constructor
      · intro hOk
        exact ⟨congrArg some hSame, (Except.ok.inj hOk).symm⟩
      · intro hBoth
        rw [hBoth.2]
    · rw [if_pos hSame]
      constructor
      · intro hOk
        cases hOk
      · intro hBoth
        exact absurd (Option.some.inj hBoth.1) hSame

theorem checkedBody_replaced (hNe : a ≠ b) (hMem : '#' ∉ checksum)
    {checked other : List Char × Bool}
    (hChecked : checkedBody (front ++ a :: back ++ '#' :: checksum) = .ok checked) :
    checkedBody (front ++ b :: back ++ '#' :: checksum) ≠ .ok other := by
  intro hOther
  have hFirst := ((checkedBody_eq_ok_iff hMem).mp hChecked).1
  have hSecond := ((checkedBody_eq_ok_iff hMem).mp hOther).1
  exact descriptorChecksum_replaced hNe (mem_charset_of_descriptorChecksum hFirst)
    (mem_charset_of_descriptorChecksum hSecond) (hFirst.trans hSecond.symm)

/- What is accepted has a body that starts with its function. -/
theorem parseDescriptor_starts {κ : Type} {bip32 : Bip32 κ} {input : String}
    {parsed : ParsedDescriptor} (hParsed : parseDescriptor bip32 input = .ok parsed) :
    ∃ checked rest,
      checkedBody (Text.trim input).toList = .ok checked ∧
        checked.1 = 's' :: 'h' :: '(' :: rest := by
  unfold parseDescriptor at hParsed
  dsimp only at hParsed
  by_cases hEmpty : (Text.trim input).toList = []
  · rw [if_pos hEmpty] at hParsed
    cases hParsed
  rw [if_neg hEmpty] at hParsed
  by_cases hLong : maxDescriptorLen < (Text.trim input).utf8ByteSize
  · rw [if_pos hLong] at hParsed
    cases hParsed
  rw [if_neg hLong] at hParsed
  rcases StagedUpdate.bind_eq_ok_iff.mp hParsed with ⟨checked, hChecked, hRest⟩
  rcases StagedUpdate.bind_eq_ok_iff.mp hRest with ⟨inner, hInner, -⟩
  refine ⟨checked, ?_⟩
  unfold stripSh stripAround at hInner
  cases hDrop : checked.1.dropPrefix? "sh(".toList with
  | none =>
    rw [hDrop] at hInner
    dsimp only [Option.bind_none] at hInner
    split at hInner
    · cases hInner
    · cases hInner
  | some rest =>
    rcases List.dropPrefix?_eq_some_iff.mp hDrop with ⟨before, hBody, hBefore⟩
    rw [beq_iff_eq.mp hBefore] at hBody
    exact ⟨rest, hChecked, hBody⟩

--- Altered Descriptors

/- A text with a checksum, as it is trimmed: blanks are only in front of its body. -/
theorem trim_checksummed {lead body trail : List Char}
    (hLead : ∀ c ∈ lead, Text.isWhitespace c = true)
    (hTrail : ∀ c ∈ trail, Text.isWhitespace c = true)
    (hKept : checksum.rdropWhile Text.isWhitespace = checksum) :
    (Text.trim (String.ofList (lead ++ (body ++ '#' :: checksum) ++ trail))).toList =
      body.dropWhile Text.isWhitespace ++ '#' :: checksum := by
  have hTrimmed :
      (Text.trim (String.ofList (lead ++ (body ++ '#' :: checksum) ++ trail))).toList =
        TrimmedText.trimmed Text.isWhitespace (lead ++ (body ++ '#' :: checksum) ++ trail) := by
    unfold Text.trim
    rw [String.toList_ofList, String.toList_ofList]
    rfl
  rw [hTrimmed, TrimmedText.trimmed_append_blank hTrail, TrimmedText.trimmed_blank_append hLead,
    TrimmedText.trimmed_cons (by decide), hKept]

/- An accepted descriptor with one character of its body replaced, between blanks. -/
def Altered (input altered : String) (a b : Char) : Prop :=
  ∃ lead front back checksum trail,
    (Text.trim input).toList = front ++ a :: back ++ '#' :: checksum ∧ '#' ∉ checksum ∧
      altered = String.ofList (lead ++ (front ++ b :: back ++ '#' :: checksum) ++ trail) ∧
      (∀ c ∈ lead, Text.isWhitespace c = true) ∧
      ∀ c ∈ trail, Text.isWhitespace c = true

theorem parseDescriptor_altered {κ : Type} {bip32 : Bip32 κ} {input altered : String} (hNe : a ≠ b)
    (hAltered : Altered input altered a b) {parsed other : ParsedDescriptor}
    (hParsed : parseDescriptor bip32 input = .ok parsed) :
    parseDescriptor bip32 altered ≠ .ok other := by
  intro hOther
  rcases hAltered with ⟨lead, front, back, checksum, trail, hText, hMem, rfl, hLead, hTrail⟩
  rcases parseDescriptor_starts hParsed with ⟨checked, rest, hChecked, hStarts⟩
  rcases parseDescriptor_starts hOther with ⟨checked', rest', hChecked', hStarts'⟩
  have hKept := TrimmedText.of_trimmed_eq (by decide) ((String.toList_ofList.symm).trans hText)
  rw [trim_checksummed hLead hTrail hKept.2] at hChecked'
  rw [hText] at hChecked
  have hBody := ((checkedBody_eq_ok_iff hMem).mp hChecked).2
  have hBody' := ((checkedBody_eq_ok_iff hMem).mp hChecked').2
  rw [hBody] at hStarts
  rw [hBody'] at hStarts'
  cases front with
  | cons c front =>
    have hFirst : Text.isWhitespace c = false := by
      rw [List.cons_append, List.cons.injEq] at hStarts
      rw [hStarts.1]
      decide
    rw [List.cons_append, List.dropWhile_cons_of_neg (by rw [hFirst]; decide)] at hChecked'
    exact checkedBody_replaced hNe hMem hChecked hChecked'
  | nil =>
    rw [List.nil_append, List.cons.injEq] at hStarts
    cases hBlank : Text.isWhitespace b with
    | false =>
      rw [List.nil_append, List.dropWhile_cons_of_neg (by rw [hBlank]; decide)] at hChecked'
      exact checkedBody_replaced hNe hMem hChecked hChecked'
    | true =>
      -- The blank is trimmed, and the function is cut.
      rw [List.nil_append, List.dropWhile_cons_of_pos hBlank, hStarts.2,
        List.dropWhile_cons_of_neg (by decide)] at hStarts'
      cases hStarts'

/-
  Every other character is detected.  Texts of the descriptor alphabet that differ in one
  character have two checksums, and a descriptor that is read with its checksum is not read with
  one character of its body altered.
-/
theorem replaced_character_detected {κ : Type} (bip32 : Bip32 κ) :
    (∀ (front back : List Char) (a b : Char),
        a ≠ b → (∀ c ∈ front ++ a :: back, c ∈ descriptorInputCharset) →
          (∀ c ∈ front ++ b :: back, c ∈ descriptorInputCharset) →
          ∃ first second,
            descriptorChecksum (front ++ a :: back) = some first ∧
              descriptorChecksum (front ++ b :: back) = some second ∧
              first ≠ second) ∧
    ∀ (input altered : String) (a b : Char),
      a ≠ b → Altered input altered a b →
        ∀ parsed,
          parseDescriptor bip32 input = .ok parsed →
            ∀ other, parseDescriptor bip32 altered ≠ .ok other := by
  constructor
  · intro front back a b hNe hFirst hSecond
    have hDiffer := descriptorChecksum_replaced hNe hFirst hSecond
    rcases exists_descriptorChecksum hFirst with ⟨first, hA, -⟩
    rcases exists_descriptorChecksum hSecond with ⟨second, hB, -⟩
    refine ⟨first, second, hA, hB, ?_⟩
    intro hSame
    apply hDiffer
    rw [hA, hB, hSame]
  · intro input altered a b hNe hAltered parsed hParsed other
    exact parseDescriptor_altered hNe hAltered hParsed

end Multisig

end OptnWallet
