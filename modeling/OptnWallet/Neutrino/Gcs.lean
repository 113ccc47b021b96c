import OptnWallet.Core.Varint
import OptnWallet.Library.SortedStream
import OptnWallet.Library.StagedUpdate

/-
  Committed filters: a sorted set of hashed items, written as differences in Golomb-Rice code, and
  matched by intersection with the queried ones.  A quotient of 2^45 loses its high bits where it
  is shifted, so that a filter with a run of as many ones is read as another one.

  Main declarations:
    * `GcsFilter.fromNbytes` and `GcsFilter.matchAny`
    * `GcsFilter.MatchesExactly` and `GcsFilter.QuotientsFit`
    * `GcsFilter.matchAny_exact`
-/

--- Bits

namespace OptnWallet

open ByteFormat

inductive GcsError where
  | truncated
  | invalidCount
  | overflow
deriving DecidableEq

/- The bits that are left, the highest of a byte first. -/
abbrev BitReader : Type := List Bool

def byteBits (byte : UInt8) : List Bool := (List.range 8).map (fun i => byte.toNat.testBit (7 - i))

def BitReader.new (bytes : List UInt8) : BitReader := bytes.flatMap byteBits

/- The ones before the next zero, which are counted in a word. -/
def BitReader.readUnary : Nat → BitReader → Except GcsError (Nat × BitReader)
  | _, [] => .error .truncated
  | quotient, false :: rest => .ok (quotient, rest)
  | quotient, true :: rest =>
    if quotient + 1 < 2 ^ 64 then readUnary (quotient + 1) rest
    else .error .overflow

def BitReader.readBits : Nat → Nat → BitReader → Except GcsError (Nat × BitReader)
  | 0, value, reader => .ok (value, reader)
  | _ + 1, _, [] => .error .truncated
  | count + 1, value, bit :: rest => readBits count (2 * value + bit.toNat) rest

/- A quotient that was shifted out of the word is lost, as `checked_shl` only checks by how much is
   shifted. -/
def deltaOf (p quotient remainder : Nat) : Except GcsError Nat :=
  let delta := quotient * 2 ^ p % 2 ^ 64 + remainder
  if delta < 2 ^ 64 then .ok delta else .error .overflow

def readDelta (p : Nat) (reader : BitReader) : Except GcsError (Nat × BitReader) := do
  let (quotient, reader) ← BitReader.readUnary 0 reader
  let (remainder, reader) ← BitReader.readBits p 0 reader
  let delta ← deltaOf p quotient remainder
  .ok (delta, reader)

--- Filters

def basicP : Nat := 19

def basicM : Nat := 784931

structure GcsFilter where
  n : UInt32
  data : List UInt8
deriving DecidableEq

/- The count of a filter and the code behind it. -/
def GcsFilter.fromNbytes (encoded : List UInt8) : Except GcsError GcsFilter :=
  match encoded with
  | [] => .error .truncated
  | first :: rest =>
    if rest.length < payloadWidth first then .error .truncated
    else
      let n := compactValue first (rest.take (payloadWidth first))
      if n.toNat < 2 ^ 32 then
        .ok { n := UInt32.ofNat n.toNat, data := rest.drop (payloadWidth first) }
      else .error .invalidCount

def fastReduce (value : UInt64) (modulus : Nat) : Nat := value.toNat * modulus / 2 ^ 64

/- The values of the filter one after the other, against the queried values from the least that is
   not below them. -/
def matchValues : Nat → BitReader → Nat → List Nat → Except GcsError Bool
  | 0, _, _, _ => .ok false
  | count + 1, reader, before, values => do
      let (delta, reader) ← readDelta basicP reader
      let value := before + delta
      if 2 ^ 64 ≤ value then .error .overflow
      else
        match values.dropWhile (fun queried => queried < value) with
        | [] => .ok false
        | queried :: values =>
          if queried = value then .ok true
          else matchValues count reader value (queried :: values)

/- The hash is keyed by the first bytes of the block's. -/
def GcsFilter.matchAny (sipHash24 : List UInt8 → List UInt8 → UInt64) (filter : GcsFilter)
    (blockHash : Vector UInt8 32) (items : List (List UInt8)) : Except GcsError Bool :=
  if filter.n = 0 ∨ items = [] then .ok false
  else if 2 ^ 64 ≤ filter.n.toNat * basicM then .error .overflow
  else
    let modulus := filter.n.toNat * basicM
    let values :=
      items.map (fun item => fastReduce (sipHash24 (blockHash.toList.take 16) item) modulus)
    let sorted := values.mergeSort (fun left right => decide (left ≤ right))
    matchValues filter.n.toNat (BitReader.new filter.data) 0 sorted.eraseReps

--- Words

open BitReader SortedStream

open GolombRice (natOfBits)
open SortedStream (meets sums)
open StagedUpdate (bind_of_ok)

def readWord (reader : BitReader) : Except GcsError ((Nat × Nat) × BitReader) := do
  let (quotient, reader) ← readUnary 0 reader
  let (remainder, reader) ← readBits basicP 0 reader
  .ok ((quotient, remainder), reader)

/- The whole words of the code, up to a count. -/
def codeWords : Nat → BitReader → List (Nat × Nat)
  | 0, _ => []
  | count + 1, reader =>
    match readWord reader with
    | .error _ => []
    | .ok (word, rest) => word :: codeWords count rest

/- The number that a word stands for. -/
def wordValue (word : Nat × Nat) : Nat := word.1 * 2 ^ basicP + word.2

/- The same number in a word of the machine, if it fits. -/
def exactDelta (word : Nat × Nat) : Except GcsError Nat :=
  if wordValue word < 2 ^ 64 then .ok (wordValue word)
  else .error .overflow

/- The value that a delta leads to and the queries that are left, unless the match is decided there.
   -/
def continued (delta : Except GcsError Nat) (before : Nat) (values : List Nat) :
    Option (Nat × List Nat) :=
  match delta with
  | .error _ => none
  | .ok delta =>
    let value := before + delta
    if 2 ^ 64 ≤ value then none
    else
      match values.dropWhile (fun queried => queried < value) with
      | [] => none
      | queried :: values =>
        if queried = value then none
        else some (value, queried :: values)

/- The words that are read until the match is decided. -/
inductive ReadsWord : Nat → BitReader → Nat → List Nat → Nat × Nat → Prop where
  | here {count before : Nat} {reader rest : BitReader} {values : List Nat} {word : Nat × Nat}
      (read : readWord reader = .ok (word, rest)) :
      ReadsWord (count + 1) reader before values word
  | later {count before value : Nat} {reader rest : BitReader} {values kept : List Nat}
      {word other : Nat × Nat}
      (read : readWord reader = .ok (word, rest))
      (goesOn : continued (deltaOf basicP word.1 word.2) before values = some (value, kept))
      (reads : ReadsWord count rest value kept other) :
      ReadsWord (count + 1) reader before values other

namespace GcsFilter

variable (filter : GcsFilter)

def words : List (Nat × Nat) := codeWords filter.n.toNat (new filter.data)

/- The values of a filter whose code has all of them. -/
def decodedValues : Option (List Nat) :=
  if filter.words.length = filter.n.toNat then some (sums 0 (filter.words.map wordValue))
  else none

variable (sipHash24 : List UInt8 → List UInt8 → UInt64) (blockHash : Vector UInt8 32)

def reducedHash (item : List UInt8) : Nat :=
  fastReduce (sipHash24 (blockHash.toList.take 16) item) (filter.n.toNat * basicM)

/- The queried values as they are compared. -/
def queries (items : List (List UInt8)) : List Nat :=
  ((items.map (filter.reducedHash sipHash24 blockHash)).mergeSort
    (fun left right => decide (left ≤ right))).eraseReps

structure MatchesExactly (items : List (List UInt8)) : Prop where
  exact : ∀ values, filter.decodedValues = some values →
    (filter.matchAny sipHash24 blockHash items = .ok true ↔ ∃ item ∈ items,
      filter.reducedHash sipHash24 blockHash item ∈ values)
  noOverflow :
    ∀ word,
    items ≠ [] →
      ReadsWord filter.n.toNat (new filter.data) 0 (filter.queries sipHash24 blockHash items) word →
      deltaOf basicP word.1 word.2 = exactDelta word

end GcsFilter

/- Below the greatest value that a hash is reduced to, and at the first word, no quotient loses
   bits. -/
def WordsFit (bound : Nat) : Nat → List (Nat × Nat) → Prop
  | _, [] => True
  | before, word :: words => word.1 < 2 ^ 45 ∧
      (before + wordValue word < bound → WordsFit bound (before + wordValue word) words)

variable {bound before : Nat} {word : Nat × Nat}

theorem wordsFit_cons {words : List (Nat × Nat)} :
    WordsFit bound before (word :: words) ↔
    word.1 < 2 ^ 45 ∧
      (before + wordValue word < bound → WordsFit bound (before + wordValue word) words) := by
  rw [WordsFit]

def GcsFilter.QuotientsFit (filter : GcsFilter) : Prop :=
  WordsFit (filter.n.toNat * basicM - 1) 0 filter.words

--- Deltas

variable {count value : Nat} {reader rest : BitReader}

/- By induction over the count. -/
theorem readBits_lt {result : Nat}
    (hRead : readBits count value reader = .ok (result, rest)) :
    result < (value + 1) * 2 ^ count := by
  induction count generalizing value reader with
  | zero =>
    unfold readBits at hRead
    cases hRead
    omega
  | succ count ih =>
    cases reader with
    | nil => cases hRead
    | cons bit reader =>
      unfold readBits at hRead
      have hBit := Bool.toNat_lt bit
      calc
        result < (2 * value + bit.toNat + 1) * 2 ^ count := ih hRead
        _ ≤ (2 * value + 2) * 2 ^ count := Nat.mul_le_mul_right _ (by omega)
        _ = (value + 1) * 2 ^ (count + 1) := by ring

theorem readWord_eq_ok_iff :
    readWord reader = .ok (word, rest) ↔
    ∃ middle,
      readUnary 0 reader = .ok (word.1, middle) ∧
        readBits basicP 0 middle = .ok (word.2, rest) := by
  unfold readWord
  rw [StagedUpdate.bind_eq_ok_iff]
  constructor
  · rintro ⟨⟨quotient, middle⟩, hUnary, hRest⟩
    rw [StagedUpdate.bind_eq_ok_iff] at hRest
    rcases hRest with ⟨⟨remainder, last⟩, hBits, hWord⟩
    cases hWord
    exact ⟨middle, hUnary, hBits⟩
  · rintro ⟨middle, hUnary, hBits⟩
    refine ⟨(word.1, middle), hUnary, ?_⟩
    dsimp only
    rw [bind_of_ok hBits]

variable (hRead : readWord reader = .ok (word, rest))

include hRead in
theorem remainder_lt : word.2 < 2 ^ basicP := by
  rcases readWord_eq_ok_iff.mp hRead with ⟨middle, -, hBits⟩
  have hLt := readBits_lt hBits
  rw [zero_add, one_mul] at hLt
  exact hLt

/- The shift loses nothing exactly where the quotient is small. -/
theorem deltaOf_eq_exactDelta_iff (hRemainder : word.2 < 2 ^ basicP) :
    deltaOf basicP word.1 word.2 = exactDelta word ↔ word.1 < 2 ^ 45 := by
  unfold basicP at hRemainder
  unfold deltaOf exactDelta wordValue basicP
  dsimp only
  constructor
  · intro hSame
    by_contra hLarge
    rw [if_pos (by omega), if_neg (by omega)] at hSame
    cases hSame
  · intro hSmall
    have hKeep : word.1 * 2 ^ 19 % 2 ^ 64 = word.1 * 2 ^ 19 := Nat.mod_eq_of_lt (by omega)
    rw [hKeep]

include hRead in
theorem deltaOf_of_small (hSmall : word.1 < 2 ^ 45) :
    deltaOf basicP word.1 word.2 = .ok (wordValue word) := by
  have hRemainder := remainder_lt hRead
  rw [(deltaOf_eq_exactDelta_iff hRemainder).mpr hSmall]
  unfold basicP at hRemainder
  unfold exactDelta wordValue basicP
  exact if_pos (by omega)

include hRead in
theorem readDelta_of_word :
    readDelta basicP reader = (deltaOf basicP word.1 word.2).map (fun delta => (delta, rest)) := by
  rcases readWord_eq_ok_iff.mp hRead with ⟨middle, hUnary, hBits⟩
  unfold readDelta
  rw [bind_of_ok hUnary]
  dsimp only
  rw [bind_of_ok hBits]
  dsimp only
  cases deltaOf basicP word.1 word.2 with
  | error fault => rfl
  | ok delta => rfl

--- Runs

include hRead in
theorem codeWords_succ : codeWords (count + 1) reader = word :: codeWords count rest := by
  rw [codeWords, hRead]

/- What a word that fits leads to. -/
include hRead in
theorem matchValues_succ (hSmall : word.1 < 2 ^ 45) (before : Nat) (values : List Nat) :
    matchValues (count + 1) reader before values =
      if 2 ^ 64 ≤ before + wordValue word then .error .overflow
      else
        match values.dropWhile
            (fun queried => queried < before + wordValue word) with
        | [] => .ok false
        | queried :: values =>
          if queried = before + wordValue word then .ok true
          else matchValues count rest (before + wordValue word) (queried :: values) := by
  have hDelta : readDelta basicP reader = .ok (wordValue word, rest) := by
    rw [readDelta_of_word hRead, deltaOf_of_small hRead hSmall]
    rfl
  rw [matchValues]
  exact bind_of_ok hDelta _

variable {values : List Nat}

/- What a run goes on with: queries in order, none of them above the bound, after a value that is
   below one of them. -/
theorem above_of_dropWhile {rest : List Nat} {queried : Nat}
    (hDrop : values.dropWhile (fun queried => queried < value) = queried :: rest)
    (hNot : queried ≠ value) : value < queried := by
  have hHead := List.head?_dropWhile_not (fun queried => decide (queried < value)) values
  rw [hDrop] at hHead
  have hNotBelow : ¬ queried < value := by simpa using hHead
  omega

variable {delta : Nat}

/- The match goes on below one of its queries. -/
theorem of_continued {rest : List Nat}
    (hContinued : continued (.ok delta) before values = some (value, rest)) :
    value = before + delta ∧ rest ⊆ values ∧ ∃ queried ∈ rest, value < queried := by
  unfold continued at hContinued
  dsimp only at hContinued
  split at hContinued
  · cases hContinued
  · split at hContinued
    · cases hContinued
    · rename_i queried others hDrop
      split at hContinued
      · cases hContinued
      · rename_i hNot
        cases hContinued
        refine ⟨rfl, ?_, queried, List.mem_cons_self, above_of_dropWhile hDrop hNot⟩
        rw [← hDrop]
        exact (List.dropWhile_suffix _).subset

/- By induction over the run. -/
theorem small_of_readsWord (hReads : ReadsWord count reader before values word)
    (hBound : ∀ queried ∈ values, queried ≤ bound)
    (hFit : WordsFit bound before (codeWords count reader)) :
    word.1 < 2 ^ 45 ∧ word.2 < 2 ^ basicP := by
  induction hReads with
  | here hRead =>
    rw [codeWords_succ hRead, wordsFit_cons] at hFit
    exact ⟨hFit.1, remainder_lt hRead⟩
  | later hRead hContinued _ ih =>
    rw [codeWords_succ hRead, wordsFit_cons] at hFit
    rcases hFit with ⟨hSmall, hFit⟩
    rw [deltaOf_of_small hRead hSmall] at hContinued
    rcases of_continued hContinued with ⟨hValue, hSubset, queried, hQuery, hAbove⟩
    have hLe := hBound queried (hSubset hQuery)
    rw [← hValue] at hFit
    exact ih (fun other hOther => hBound other (hSubset hOther)) (hFit (by omega))

/- By induction over the count. -/
theorem matchValues_eq_true_iff (hBound : ∀ queried ∈ values, queried ≤ bound)
    (hWord : bound < 2 ^ 64) (hFit : WordsFit bound before (codeWords count reader))
    (hWhole : (codeWords count reader).length = count) :
    matchValues count reader before values = .ok true ↔
    meets values (sums before ((codeWords count reader).map wordValue)) = true := by
  induction count generalizing reader before values with
  | zero =>
    unfold matchValues codeWords
    rw [List.map_nil, sums, meets]
    simp
  | succ count ih =>
    cases hRead : readWord reader with
    | error fault =>
      rw [codeWords, hRead] at hWhole
      cases hWhole
    | ok pair =>
      rcases pair with ⟨first, rest⟩
      rw [codeWords_succ hRead] at hFit hWhole ⊢
      rw [wordsFit_cons] at hFit
      rcases hFit with ⟨hSmall, hFit⟩
      rw [matchValues_succ hRead hSmall, List.map_cons, sums, meets]
      by_cases hLarge : 2 ^ 64 ≤ before + wordValue first
      · have hNone : values.dropWhile (fun queried => queried < before + wordValue first) = [] := by
          rw [List.dropWhile_eq_nil_iff]
          intro queried hMem
          have hLe := hBound queried hMem
          rw [decide_eq_true_eq]
          omega
        rw [if_pos hLarge, hNone]
        simp
      · rw [if_neg hLarge]
        cases
          hDrop :
            values.dropWhile
              (fun queried => queried < before + wordValue first) with
        | nil => simp
        | cons queried others =>
          dsimp only
          by_cases hSame : queried = before + wordValue first
          · rw [if_pos hSame, if_pos hSame]
            exact ⟨fun _ => rfl, fun _ => rfl⟩
          · rw [if_neg hSame, if_neg hSame]
            have hSubset :=
              (List.dropWhile_suffix
                (fun queried => decide (queried < before + wordValue first))
                (l := values)).subset
            rw [hDrop] at hSubset
            have hAbove := above_of_dropWhile hDrop hSame
            have hLe := hBound queried (hSubset List.mem_cons_self)
            exact ih
                (fun other hOther => hBound other (hSubset hOther))
                (hFit (by omega))
                (Nat.succ.inj hWhole)

/- Below a single query the match goes on. -/
theorem continued_of_lt (hBelow : before + delta < bound) (hBound : bound < 2 ^ 64) :
    continued (.ok delta) before [bound] = some (before + delta, [bound]) := by
  have hKept : [bound].dropWhile (fun queried => queried < before + delta) = [bound] := by
    rw [List.dropWhile_cons_of_neg]
    rw [decide_eq_true_eq]
    omega
  unfold continued
  dsimp only
  rw [if_neg (by omega), hKept]
  exact if_neg (by omega)

/- By induction over the count: with one query the words up to it are read. -/
theorem wordsFit_of_read (hWord : bound < 2 ^ 64)
    (hExact : ∀ word,
        ReadsWord count reader before [bound] word → deltaOf basicP word.1 word.2 = exactDelta word)
      : WordsFit bound before (codeWords count reader) := by
  induction count generalizing reader before with
  | zero => trivial
  | succ count ih =>
    cases hRead : readWord reader with
    | error fault =>
      rw [codeWords, hRead]
      trivial
    | ok pair =>
      rcases pair with ⟨first, rest⟩
      rw [codeWords_succ hRead, wordsFit_cons]
      have hRemainder := remainder_lt hRead
      have hSmall : first.1 < 2 ^ 45 := by
        rw [← deltaOf_eq_exactDelta_iff hRemainder]
        exact hExact first (.here hRead)
      refine ⟨hSmall, ?_⟩
      intro hBelow
      have hContinued :
          continued (deltaOf basicP first.1 first.2) before [bound] =
            some (before + wordValue first, [bound]) := by
        rw [deltaOf_of_small hRead hSmall]
        exact continued_of_lt hBelow hWord
      apply ih
      intro word hReads
      exact hExact word (.later hRead hContinued hReads)

--- Filters

theorem pairwise_sorted (values : List Nat) :
    (values.mergeSort (fun left right => decide (left ≤ right))).Pairwise (· ≤ ·) := by
  have hSorted :
      (values.mergeSort
        (fun left right => decide (left ≤ right))).Pairwise
          (fun left right => decide (left ≤ right) = true) := by
    apply List.pairwise_mergeSort
    · intro a b c hLeft hRight
      rw [decide_eq_true_eq] at hLeft hRight ⊢
      exact le_trans hLeft hRight
    · intro a b
      rw [Bool.or_eq_true, decide_eq_true_eq, decide_eq_true_eq]
      exact Nat.le_total a b
  exact hSorted.imp (fun hLe => of_decide_eq_true hLe)

namespace GcsFilter

variable {filter : GcsFilter} {sipHash24 : List UInt8 → List UInt8 → UInt64}
variable {blockHash : Vector UInt8 32}

theorem modulus_lt (filter : GcsFilter) : filter.n.toNat * basicM < 2 ^ 64 := by
  have hCount := filter.n.toNat_lt
  unfold basicM
  omega

variable {items : List (List UInt8)}

theorem mem_queries {queried : Nat} :
    queried ∈ filter.queries sipHash24 blockHash items ↔
    ∃ item ∈ items, filter.reducedHash sipHash24 blockHash item = queried := by
  unfold queries
  rw [mem_eraseReps, List.mem_mergeSort, List.mem_map]

theorem pairwise_queries (items : List (List UInt8)) :
    (filter.queries sipHash24 blockHash items).Pairwise (· ≤ ·) := by
  unfold queries
  apply List.Pairwise.sublist (eraseReps_sublist _)
  exact pairwise_sorted _

/- A hash is reduced below the modulus. -/
theorem reducedHash_le (hCount : filter.n ≠ 0) (item : List UInt8) :
    filter.reducedHash sipHash24 blockHash item ≤ filter.n.toNat * basicM - 1 := by
  have hPos : 0 < filter.n.toNat := by
    rw [Nat.pos_iff_ne_zero]
    intro hZero
    exact hCount (UInt32.toNat_inj.mp hZero)
  have hHash := (sipHash24 (blockHash.toList.take 16) item).toNat_lt
  have hModulus : 0 < filter.n.toNat * basicM := Nat.mul_pos hPos (by decide)
  unfold reducedHash fastReduce
  apply Nat.le_sub_one_of_lt
  apply Nat.div_lt_of_lt_mul
  exact (Nat.mul_lt_mul_right hModulus).mpr hHash

theorem matchAny_eq (hCount : filter.n ≠ 0) (hItems : items ≠ []) :
    filter.matchAny sipHash24 blockHash items = matchValues filter.n.toNat (new filter.data) 0
        (filter.queries sipHash24 blockHash items) := by
  have hModulus := filter.modulus_lt
  unfold matchAny
  rw [if_neg
      (by
        rw [not_or]
        exact ⟨hCount, hItems⟩), if_neg (by omega)]
  rfl

theorem matchAny_exact_of_fit (hFit : filter.QuotientsFit) {values : List Nat}
    (hValues : filter.decodedValues = some values) :
    filter.matchAny sipHash24 blockHash items = .ok true ↔
    ∃ item ∈ items, filter.reducedHash sipHash24 blockHash item ∈ values := by
  unfold decodedValues at hValues
  split at hValues
  · rename_i hWhole
    cases hValues
    by_cases hNone : filter.n = 0 ∨ items = []
    · have hAny : filter.matchAny sipHash24 blockHash items = .ok false := by
        unfold matchAny
        exact if_pos hNone
      rw [hAny]
      constructor
      · intro hOk
        cases hOk
      · rintro ⟨item, hItem, hMem⟩
        rcases hNone with hZero | hEmpty
        · rw [hZero] at hWhole
          have hWords : filter.words = [] := List.eq_nil_of_length_eq_zero hWhole
          rw [hWords] at hMem
          cases hMem
        · rw [hEmpty] at hItem
          cases hItem
    · rw [not_or] at hNone
      have hModulus := filter.modulus_lt
      have hBound :
          ∀ queried ∈ filter.queries sipHash24 blockHash items,
          queried ≤ filter.n.toNat * basicM - 1 := by
        intro queried hMem
        rcases mem_queries.mp hMem with ⟨item, -, rfl⟩
        exact reducedHash_le hNone.1 item
      rw [matchAny_eq hNone.1 hNone.2, matchValues_eq_true_iff hBound (by omega) hFit hWhole,
        meets_eq_true_iff (pairwise_queries items) (pairwise_sums _ _)]
      constructor
      · rintro ⟨value, hValue, hQuery⟩
        rcases mem_queries.mp hQuery with ⟨item, hItem, rfl⟩
        exact ⟨item, hItem, hValue⟩
      · rintro ⟨item, hItem, hMem⟩
        exact ⟨_, hMem, mem_queries.mpr ⟨item, hItem, rfl⟩⟩
  · cases hValues

theorem matchesExactly_of_fit (hFit : filter.QuotientsFit) (items : List (List UInt8)) :
    filter.MatchesExactly sipHash24 blockHash items := by
  constructor
  · intro values hValues
    exact matchAny_exact_of_fit hFit hValues
  · intro word _ hReads
    by_cases hCount : filter.n = 0
    · rw [hCount] at hReads
      cases hReads
    · have hBound :
          ∀ queried ∈ filter.queries sipHash24 blockHash items,
          queried ≤ filter.n.toNat * basicM - 1 := by
        intro queried hQuery
        rcases mem_queries.mp hQuery with ⟨item, -, rfl⟩
        exact reducedHash_le hCount item
      have hSmall := small_of_readsWord hReads hBound hFit
      exact (deltaOf_eq_exactDelta_iff hSmall.2).mpr hSmall.1

/- Every hash is the greatest one. -/
theorem fit_of_matchesExactly
    (hExact : ∀ sipHash24 blockHash items, filter.MatchesExactly sipHash24 blockHash items) :
    filter.QuotientsFit := by
  by_cases hCount : filter.n = 0
  · unfold QuotientsFit words
    rw [hCount]
    trivial
  · have hPos : 0 < filter.n.toNat := by
      rw [Nat.pos_iff_ne_zero]
      intro hZero
      exact hCount (UInt32.toNat_inj.mp hZero)
    have hModulus := filter.modulus_lt
    have hGreatest :
        filter.reducedHash (fun _ _ => UInt64.ofNat (2 ^ 64 - 1)) (Vector.replicate 32 0) [] =
          filter.n.toNat * basicM - 1 := by
      have hNat : (UInt64.ofNat (2 ^ 64 - 1)).toNat = 2 ^ 64 - 1 := rfl
      unfold reducedHash fastReduce
      rw [hNat]
      unfold basicM at hModulus ⊢
      omega
    have hQueries :
        filter.queries (fun _ _ => UInt64.ofNat (2 ^ 64 - 1)) (Vector.replicate 32 0) [[]] =
          [filter.n.toNat * basicM - 1] := by
      unfold queries
      rw [List.map_singleton, hGreatest, List.mergeSort_singleton]
      rfl
    have hReads :=
      (hExact (fun _ _ => UInt64.ofNat (2 ^ 64 - 1)) (Vector.replicate 32 0) [[]]).noOverflow
    rw [hQueries] at hReads
    exact wordsFit_of_read (by omega) (fun word hWord => hReads word (List.cons_ne_nil _ _) hWord)

end GcsFilter

--- Filters That Were Encoded

/- The filter that the reference encoder makes of hashed values: their count, and the differences
   between them in order. -/
def encodeFilter (values : List Nat) : List UInt8 :=
  varint (UInt64.ofNat values.length) ++ GolombRice.packBits
      (GolombRice.stream basicP
        (differences 0 (values.mergeSort (fun left right => decide (left ≤ right)))))

theorem readUnary_replicate {quotient ones : Nat} (hFits : quotient + ones < 2 ^ 64)
    (rest : BitReader) :
    readUnary quotient (List.replicate ones true ++ false :: rest) =
      .ok (quotient + ones, rest) := by
  induction ones generalizing quotient with
  | zero => rfl
  | succ ones ih =>
    rw [List.replicate_succ, List.cons_append, readUnary, if_pos (by omega), ih (by omega)]
    congr 2
    omega

theorem readBits_append (bits rest : List Bool) (value : Nat) :
    readBits bits.length value (bits ++ rest) = .ok (natOfBits value bits, rest) := by
  induction bits generalizing value with
  | nil => rfl
  | cons bit bits ih =>
    rw [List.length_cons, List.cons_append, readBits, ih]
    rfl

theorem readWord_word (hFits : value / 2 ^ basicP < 2 ^ 64) (rest : BitReader) :
    readWord (GolombRice.word basicP value ++ rest) =
      .ok ((value / 2 ^ basicP, value % 2 ^ basicP), rest) := by
  have hBits := readBits_append (GolombRice.bitsOf basicP (value % 2 ^ basicP)) rest 0
  rw [GolombRice.length_bitsOf, GolombRice.natOfBits_bitsOf, zero_mul, zero_add, Nat.mod_mod]
    at hBits
  have hUnary :
      readUnary 0
          (List.replicate (value / 2 ^ basicP) true ++
            false :: (GolombRice.bitsOf basicP (value % 2 ^ basicP) ++ rest)) =
        .ok (0 + value / 2 ^ basicP, GolombRice.bitsOf basicP (value % 2 ^ basicP) ++ rest) :=
    readUnary_replicate (by omega) _
  unfold GolombRice.word
  rw [List.append_assoc, List.cons_append]
  rw [readWord_eq_ok_iff]
  rw [zero_add] at hUnary
  exact ⟨_, hUnary, hBits⟩

/- By induction over the values. -/
theorem codeWords_stream (hFits : ∀ value ∈ values, value / 2 ^ basicP < 2 ^ 64)
    (rest : BitReader) :
    codeWords values.length (GolombRice.stream basicP values ++ rest) =
      values.map (fun value => (value / 2 ^ basicP, value % 2 ^ basicP)) := by
  induction values with
  | nil => rfl
  | cons value values ih =>
    have hRest := ih (fun other hMem => hFits other (List.mem_cons_of_mem _ hMem))
    unfold GolombRice.stream at hRest ⊢
    rw [List.flatMap_cons, List.append_assoc, List.length_cons, codeWords,
      readWord_word (hFits value List.mem_cons_self)]
    dsimp only
    rw [hRest, List.map_cons]

theorem new_eq_flatMap (bytes : List UInt8) :
    new bytes = bytes.flatMap GolombRice.byteBits := rfl

theorem fromNbytes_varint (hCount : count < 2 ^ 32) (data : List UInt8) :
    GcsFilter.fromNbytes (varint (UInt64.ofNat count) ++ data) =
      .ok { n := UInt32.ofNat count, data } := by
  have hNat : (UInt64.ofNat count).toNat = count :=
    UInt64.toNat_ofNat_of_lt' (lt_trans hCount (by decide))
  rcases compactLayout_varint (.usage "") (UInt64.ofNat count) with
    ⟨first, payload, hBytes, hLength, hValue, -⟩
  rw [hBytes, List.cons_append]
  unfold GcsFilter.fromNbytes
  dsimp only
  rw [if_neg (by rw [List.length_append]; omega), ← hLength,
    List.take_left, List.drop_left, ← hValue, hNat, if_pos hCount]

/- Differences of values are not above them. -/
theorem le_of_mem_differences (hBound : ∀ value ∈ values, value ≤ bound)
    (hMem : delta ∈ differences before values) : delta ≤ bound := by
  induction values generalizing before with
  | nil => cases hMem
  | cons value values ih =>
    unfold differences at hMem
    have hHere := hBound value List.mem_cons_self
    rcases List.mem_cons.mp hMem with rfl | hLater
    · omega
    · exact ih (fun other hOther => hBound other (List.mem_cons_of_mem _ hOther)) hLater

theorem wordsFit_of_small {words : List (Nat × Nat)} (hSmall : ∀ word ∈ words, word.1 < 2 ^ 45)
    (bound before : Nat) : WordsFit bound before words := by
  induction words generalizing before with
  | nil => trivial
  | cons word words ih =>
    rw [wordsFit_cons]
    exact ⟨hSmall word List.mem_cons_self,
      fun _ => ih (fun other hMem => hSmall other (List.mem_cons_of_mem _ hMem)) _⟩

/- The encoded values come back, and none is lost. -/
theorem exists_encoded (hCount : values.length < 2 ^ 32)
    (hSmall : ∀ value ∈ values, value < 2 ^ 64) :
    ∃ filter,
    GcsFilter.fromNbytes (encodeFilter values) = .ok filter ∧
      filter.n.toNat = values.length ∧
      filter.QuotientsFit ∧
      filter.decodedValues = some (values.mergeSort (fun left right => decide (left ≤ right))) := by
  have hNat : (UInt32.ofNat values.length).toNat = values.length := UInt32.toNat_ofNat_of_lt' hCount
  have hDeltas :
      ∀ delta ∈ differences 0 (values.mergeSort (fun left right => decide (left ≤ right))),
        delta / 2 ^ basicP < 2 ^ 45 := by
    intro delta hMem
    have hLe : delta ≤ 2 ^ 64 - 1 := by
      apply le_of_mem_differences _ hMem
      intro value hValue
      rw [List.mem_mergeSort] at hValue
      have hLt := hSmall value hValue
      omega
    unfold basicP
    omega
  have hLength :
      (differences 0
        (values.mergeSort (fun left right => decide (left ≤ right)))).length =
        values.length := by
    rw [length_differences, List.length_mergeSort]
  rcases GolombRice.exists_unpack_packBits
    (GolombRice.stream basicP
      (differences 0 (values.mergeSort (fun left right => decide (left ≤ right)))))
    with ⟨padding, hPadding⟩
  have hWords :=
    codeWords_stream
      (fun value hMem => lt_trans (hDeltas value hMem) (by decide))
      padding
  rw [hLength, ← hPadding, ← new_eq_flatMap] at hWords
  refine ⟨_, fromNbytes_varint hCount _, hNat, ?_, ?_⟩
  · unfold GcsFilter.QuotientsFit GcsFilter.words
    dsimp only
    rw [hNat, hWords]
    apply wordsFit_of_small
    intro word hMem
    rcases List.mem_map.mp hMem with ⟨delta, hDelta, rfl⟩
    exact hDeltas delta hDelta
  · have hValue : ∀ delta, wordValue (delta / 2 ^ basicP, delta % 2 ^ basicP) = delta := by
      intro delta
      unfold wordValue
      exact Nat.div_add_mod' delta (2 ^ basicP)
    unfold GcsFilter.decodedValues GcsFilter.words
    dsimp only
    rw [hNat, hWords, List.length_map, hLength, if_pos rfl, List.map_map]
    have hSame :
        (differences 0
            (values.mergeSort (fun left right => decide (left ≤ right)))).map
            (wordValue ∘ fun value => (value / 2 ^ basicP, value % 2 ^ basicP)) =
          differences 0 (values.mergeSort (fun left right => decide (left ≤ right))) := by
      conv_rhs => rw [← List.map_id (differences _ _)]
      apply List.map_congr_left
      intro delta _
      exact hValue delta
    rw [hSame, sums_differences (fun value _ => Nat.zero_le value) (pairwise_sorted values)]

section

variable (sipHash24 : List UInt8 → List UInt8 → UInt64) (blockHash : Vector UInt8 32)

/- The values that the reference encoder hashes entries to. -/
def entryValues (entries : List (List UInt8)) : List Nat :=
  entries.map
    (fun entry => fastReduce (sipHash24 (blockHash.toList.take 16) entry) (entries.length * basicM))

theorem matches_encoded
    {entries items : List (List UInt8)} (hCount : entries.length < 2 ^ 32) {entry : List UInt8}
    (hEntry : entry ∈ entries) (hItem : entry ∈ items) :
    ∃ filter,
    GcsFilter.fromNbytes (encodeFilter (entryValues sipHash24 blockHash entries)) = .ok filter ∧
      filter.matchAny sipHash24 blockHash items = .ok true := by
  have hLength : (entryValues sipHash24 blockHash entries).length = entries.length :=
    List.length_map _
  have hSmall : ∀ value ∈ entryValues sipHash24 blockHash entries, value < 2 ^ 64 := by
    intro value hMem
    rcases List.mem_map.mp hMem with ⟨other, -, rfl⟩
    have hHash := (sipHash24 (blockHash.toList.take 16) other).toNat_lt
    unfold fastReduce basicM
    have hProduct :
        (sipHash24 (blockHash.toList.take 16) other).toNat * (entries.length * 784931) ≤
          2 ^ 64 * (2 ^ 32 * 784931) :=
      Nat.mul_le_mul (by omega) (by omega)
    omega
  rcases exists_encoded (by rw [hLength]; exact hCount) hSmall
    with ⟨filter, hRead, hNat, hFit, hValues⟩
  refine ⟨filter, hRead, ?_⟩
  rw [GcsFilter.matchAny_exact_of_fit hFit hValues]
  refine ⟨entry, hItem, ?_⟩
  rw [List.mem_mergeSort]
  unfold GcsFilter.reducedHash
  rw [hNat, hLength]
  exact List.mem_map_of_mem hEntry

end

theorem new_replicate (count : Nat) (rest : List UInt8) :
    new (List.replicate count 0xff ++ rest) = List.replicate (8 * count) true ++ new rest := by
  induction count with
  | zero => rfl
  | succ count ih =>
    have hByte : byteBits 0xff = List.replicate 8 true := rfl
    unfold new at ih ⊢
    rw [List.replicate_succ, List.cons_append, List.flatMap_cons, ih, hByte, ← List.append_assoc,
      ← List.replicate_add, Nat.mul_succ, Nat.add_comm]

/- One word, whose quotient is 2^45. -/
def longFilter : GcsFilter where
  n := 1
  data := List.replicate (2 ^ 42) 0xff ++ [0, 0, 0]

theorem readWord_longFilter :
    readWord (new longFilter.data) = .ok ((2 ^ 45, 0), List.replicate 4 false) := by
  have hTail : new [0, 0, 0] = false :: List.replicate 23 false := rfl
  have hNew :
      new longFilter.data = List.replicate (2 ^ 45) true ++ false :: List.replicate 23 false := by
    unfold longFilter
    rw [new_replicate, hTail]
    rfl
  have hUnary : readUnary 0 (new longFilter.data) = .ok (0 + 2 ^ 45, List.replicate 23 false) := by
    rw [hNew]
    exact readUnary_replicate (by decide) _
  have hBits : readBits basicP 0 (List.replicate 23 false) = .ok (0, List.replicate 4 false) :=
    rfl
  rw [readWord_eq_ok_iff]
  rw [zero_add] at hUnary
  exact ⟨_, hUnary, hBits⟩

end OptnWallet
