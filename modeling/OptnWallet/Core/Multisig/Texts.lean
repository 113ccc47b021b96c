import OptnWallet.Core.Cashaddr.Detection
import OptnWallet.Core.Multisig.Descriptors

/-
  The texts a descriptor is made of, and that each of them is read as it was written.

  Main declarations:
    * `Bip32.ReadsBase58`
    * `Multisig.normalizeMasterFingerprint_eq_some_iff`
    * `Multisig.exists_descriptorChecksum`
    * `Multisig.parseDescriptorKey_keyText`
-/

--- Characters

namespace OptnWallet

/- The letters and digits that cannot be taken for others. -/
def isBase58 (c : Char) : Bool := c.isAlphanum && c ≠ '0' && c ≠ 'O' && c ≠ 'I' && c ≠ 'l'

/-
  What the dependency reads as an extended key: the text of one is in base 58, and has no more
  than 112 characters.
-/
def Bip32.ReadsBase58 {κ : Type} (bip32 : Bip32 κ) : Prop :=
  ∀ text xpub,
    bip32.fromStr text = some xpub → text.toList.length ≤ 112 ∧ ∀ c ∈ text.toList, isBase58 c = true

namespace Multisig

open StagedUpdate

/- The characters of a descriptor, by their codes. -/
def charsetCodes : List Nat :=
  [48, 49, 50, 51, 52, 53, 54, 55, 56, 57, 40, 41, 91, 93, 44, 39, 47, 42, 97, 98, 99, 100, 101,
    102, 103, 104, 64, 58, 36, 37, 123, 125, 73, 74, 75, 76, 77, 78, 79, 80, 81, 82, 83, 84, 85, 86,
    87, 88, 89, 90, 38, 43, 45, 46, 59, 60, 61, 62, 63, 33, 94, 95, 124, 126, 105, 106, 107, 108,
    109, 110, 111, 112, 113, 114, 115, 116, 117, 118, 119, 120, 121, 122, 65, 66, 67, 68, 69, 70,
    71, 72, 96, 35, 34, 92, 32]

theorem descriptorInputCharset_eq : descriptorInputCharset = charsetCodes.map Char.ofNat :=
  String.toList_ofList

/- A character of a key, which is allowed in a descriptor and separates nothing there. -/
def isKeyChar (c : Char) : Bool :=
  (charsetCodes.map Char.ofNat).contains c && c ≠ ',' && c ≠ '#' && c ≠ ']' && !Text.isWhitespace c

variable {c : Char}

theorem isKeyChar_of_mem {chars : List Char} (hAll : chars.all isKeyChar = true)
    (hMem : c ∈ chars) : isKeyChar c = true := List.all_eq_true.mp hAll c hMem

theorem isWhitespace_of_isKeyChar (hChar : isKeyChar c = true) : Text.isWhitespace c = false := by
  unfold isKeyChar at hChar
  rw [Bool.and_eq_true, Bool.not_eq_true'] at hChar
  exact hChar.2

variable {text : List Char}

theorem not_mem_of_forall {P : Char → Prop} (hText : ∀ x ∈ text, P x) (hNot : ¬ P c) : c ∉ text :=
  fun hMem => hNot (hText c hMem)

theorem isKeyChar_of_isBase58 (hChar : isBase58 c = true) : isKeyChar c = true ∧ c ≠ '/' := by
  have hAll :
      (List.range 128).all
        (fun n => !isBase58 (Char.ofNat n) ||
            (isKeyChar (Char.ofNat n) &&
              decide (Char.ofNat n ≠ '/'))) = true := by
    decide +kernel
  have hAscii : c.toNat < 128 := by
    unfold isBase58 at hChar
    delta Char.isAlphanum Char.isAlpha Char.isUpper Char.isLower Char.isDigit at hChar
    simp only
      [Bool.and_eq_true, Bool.or_eq_true, decide_eq_true_eq, ge_iff_le, UInt32.le_iff_toNat_le]
      at hChar
    rcases hChar.1.1.1.1 with (hUpper | hLower) | hDigit
    · exact Nat.lt_of_le_of_lt hUpper.2 (by decide)
    · exact Nat.lt_of_le_of_lt hLower.2 (by decide)
    · exact Nat.lt_of_le_of_lt hDigit.2 (by decide)
  have hHere := List.all_eq_true.mp hAll c.toNat (List.mem_range.mpr hAscii)
  rw [Char.ofNat_toNat, hChar, Bool.not_true, Bool.false_or, Bool.and_eq_true] at hHere
  exact ⟨hHere.1, of_decide_eq_true hHere.2⟩

/- The digits of a fingerprint as it is normalized. -/
def lowerHexDigits : List Char :=
  ['0', '1', '2', '3', '4', '5', '6', '7', '8', '9', 'a', 'b', 'c', 'd', 'e', 'f']

theorem of_isAsciiHexdigit (hDigit : isAsciiHexdigit c = true) :
    c.toLower ∈ lowerHexDigits ∧ c ∈ descriptorInputCharset := by
  have hAll :
      (List.range 128).all
        (fun n => !isAsciiHexdigit (Char.ofNat n) ||
            (lowerHexDigits.contains (Char.ofNat n).toLower &&
              (charsetCodes.map Char.ofNat).contains (Char.ofNat n))) = true := by
    decide +kernel
  have hAscii : c.toNat < 128 := by
    unfold isAsciiHexdigit at hDigit
    simp only [Bool.and_eq_true, Char.isDigit, Char.le_def, Bool.or_eq_true, decide_eq_true_eq,
      ge_iff_le, UInt32.le_iff_toNat_le] at hDigit
    rcases hDigit with (hDigit | hUpper) | hLower
    · exact Nat.lt_of_le_of_lt hDigit.2 (by decide)
    · exact Nat.lt_of_le_of_lt hUpper.2 (by decide)
    · exact Nat.lt_of_le_of_lt hLower.2 (by decide)
  have hHere := List.all_eq_true.mp hAll c.toNat (List.mem_range.mpr hAscii)
  rw [Char.ofNat_toNat, hDigit, Bool.not_true, Bool.false_or, Bool.and_eq_true] at hHere
  rw [descriptorInputCharset_eq]
  exact ⟨List.contains_iff_mem.mp hHere.1, List.contains_iff_mem.mp hHere.2⟩

theorem of_mem_lowerHexDigits (hMem : c ∈ lowerHexDigits) :
    isKeyChar c = true ∧ c ≠ '/' ∧ isAsciiHexdigit c = true ∧ c.toLower = c := by
  have hAll :
      lowerHexDigits.all
        (fun c => isKeyChar c && decide (c ≠ '/') && isAsciiHexdigit c && decide (c.toLower = c)) =
          true := by
    decide +kernel
  have hHere := List.all_eq_true.mp hAll c hMem
  simp only [Bool.and_eq_true, decide_eq_true_eq] at hHere
  exact ⟨hHere.1.1.1, hHere.1.1.2, hHere.1.2, hHere.2⟩

/- The decimal digits. -/
theorem of_isDigit (hDigit : c.isDigit = true) : isKeyChar c = true ∧ c ≠ '/' := by
  have hAll :
      (List.range' 48 10).all
        (fun n => isKeyChar (Char.ofNat n) &&
            decide (Char.ofNat n ≠ '/')) = true := by
    decide +kernel
  have hMem : c.toNat ∈ List.range' 48 10 := by
    rw [List.mem_range'_1]
    have hRange := Char.isDigit_iff_toNat.mp hDigit
    exact ⟨hRange.1, Nat.lt_succ_of_le hRange.2⟩
  have hHere := List.all_eq_true.mp hAll c.toNat hMem
  rw [Char.ofNat_toNat, Bool.and_eq_true] at hHere
  exact ⟨hHere.1, of_decide_eq_true hHere.2⟩

/- Every character that is allowed is one byte long. -/
theorem utf8Len_of_charset (hText : ∀ c ∈ text, c ∈ descriptorInputCharset) :
    (String.ofList text).utf8ByteSize = text.length := by
  have hAll : descriptorInputCharset.all (fun c => decide (c.utf8Size = 1)) = true := by
    rw [descriptorInputCharset_eq]
    decide +kernel
  rw [String.utf8ByteSize_ofList]
  induction text with
  | nil => rfl
  | cons c text ih =>
    rw [List.forall_mem_cons] at hText
    rw [String.utf8Len_cons, ih hText.2, List.length_cons,
      of_decide_eq_true (List.all_eq_true.mp hAll c hText.1)]

--- Fingerprints

/- Eight digits, in either case. -/
structure IsFingerprint (text : String) : Prop where
  size : text.utf8ByteSize = 8
  digits : ∀ c ∈ text.toList, isAsciiHexdigit c = true

def toAsciiLowercase (text : String) : String := String.ofList (text.toList.map Char.toLower)

variable {raw : String}

theorem normalizeMasterFingerprint_eq_some_iff {fingerprint : String} :
    normalizeMasterFingerprint raw = .ok (some fingerprint) ↔
    IsFingerprint (Text.trim raw) ∧ fingerprint = toAsciiLowercase (Text.trim raw) := by
  unfold normalizeMasterFingerprint
  dsimp only
  by_cases hEmpty : (Text.trim raw).toList = []
  · rw [if_pos hEmpty]
    constructor
    · intro hNone
      cases hNone
    · rintro ⟨hFingerprint, -⟩
      have hSize := hFingerprint.size
      rw [← String.ofList_toList (s := Text.trim raw), hEmpty] at hSize
      cases hSize
  rw [if_neg hEmpty]
  by_cases hBad :
    (Text.trim raw).utf8ByteSize ≠ 8 ∨ (Text.trim raw).toList.all isAsciiHexdigit = false
  · rw [if_pos hBad]
    constructor
    · intro hError
      cases hError
    · rintro ⟨hFingerprint, -⟩
      rcases hBad with hSize | hDigits
      · exact absurd hFingerprint.size hSize
      · rw [List.all_eq_true.mpr hFingerprint.digits] at hDigits
        cases hDigits
  · rw [if_neg hBad]
    rw [not_or, not_not, Bool.not_eq_false] at hBad
    constructor
    · intro hOk
      have hSame := Option.some.inj (Except.ok.inj hOk)
      exact ⟨⟨hBad.1, List.all_eq_true.mp hBad.2⟩, hSame.symm⟩
    · rintro ⟨-, rfl⟩
      rfl

/- A normalized fingerprint is what it is normalized to. -/
theorem of_isFingerprint {text : String} (hFingerprint : IsFingerprint text) :
    (toAsciiLowercase text).toList.length = 8 ∧
    ∀ c ∈ (toAsciiLowercase text).toList, c ∈ lowerHexDigits := by
  have hChars : ∀ c ∈ text.toList, c ∈ descriptorInputCharset :=
    fun c hMem => (of_isAsciiHexdigit (hFingerprint.digits c hMem)).2
  have hSize := utf8Len_of_charset hChars
  rw [String.ofList_toList, hFingerprint.size] at hSize
  unfold toAsciiLowercase
  rw [String.toList_ofList]
  constructor
  · rw [List.length_map, ← hSize]
  · intro c hMem
    rcases List.mem_map.mp hMem with ⟨d, hDigit, rfl⟩
    exact (of_isAsciiHexdigit (hFingerprint.digits d hDigit)).1

/- What holds no white space is not trimmed. -/
theorem trim_of_forall (hText : ∀ c ∈ text, isKeyChar c = true) :
    Text.trim (String.ofList text) = String.ofList text :=
  trim_of_ends (fun c hHead => isWhitespace_of_isKeyChar (hText c (List.mem_of_head? hHead)))
    (fun c hLast => isWhitespace_of_isKeyChar (hText c (List.mem_of_getLast? hLast)))

theorem trimChars_of_plain (hPlain : ∀ c ∈ text, Text.isWhitespace c = false) :
    trimChars text = text := by
  unfold trimChars
  rw [trim_of_ends, String.toList_ofList]
  · intro c hHead
    exact hPlain c (List.mem_of_mem_head? hHead)
  · intro c hLast
    exact hPlain c (List.mem_of_mem_getLast? hLast)

theorem isInfix_trimChars (text : List Char) : trimChars text <:+: text := by
  have hInfix := Address.trim_infix (String.ofList text)
  rw [String.toList_ofList] at hInfix
  exact hInfix

theorem normalizeMasterFingerprint_toAsciiLowercase {text : String}
    (hFingerprint : IsFingerprint text) :
    normalizeMasterFingerprint (toAsciiLowercase text) = .ok (some (toAsciiLowercase text)) := by
  rcases of_isFingerprint hFingerprint with ⟨hLength, hDigits⟩
  have hTrim : Text.trim (toAsciiLowercase text) = toAsciiLowercase text := by
    have hHere := trim_of_forall (fun c hMem => (of_mem_lowerHexDigits (hDigits c hMem)).1)
    rwa [String.ofList_toList] at hHere
  rw [normalizeMasterFingerprint_eq_some_iff, hTrim]
  have hSize :=
    utf8Len_of_charset
      (fun c hMem => (of_isAsciiHexdigit (of_mem_lowerHexDigits (hDigits c hMem)).2.2.1).2)
  rw [String.ofList_toList, hLength] at hSize
  refine ⟨⟨hSize, fun c hMem => (of_mem_lowerHexDigits (hDigits c hMem)).2.2.1⟩, ?_⟩
  have hMap : (toAsciiLowercase text).toList.map Char.toLower = (toAsciiLowercase text).toList := by
    conv_rhs => rw [← List.map_id (toAsciiLowercase text).toList]
    apply List.map_congr_left
    intro c hMem
    exact (of_mem_lowerHexDigits (hDigits c hMem)).2.2.2
  exact ((congrArg String.ofList hMap).trans String.ofList_toList).symm

--- Numbers

theorem isDigit_of_mem_toString {n : Nat} (hMem : c ∈ (toString n).toList) : c.isDigit = true := by
  have hDigits : (toString n).toList = Nat.toDigits 10 n := Nat.toList_repr
  rw [hDigits] at hMem
  exact Nat.isDigit_of_mem_toDigits (by decide) (by decide) hMem

theorem dropPrefix_of_not_mem (hMem : c ∉ text) : text.dropPrefix? [c] = none := by
  cases text with
  | nil => rfl
  | cons first text =>
    rw [List.mem_cons, not_or] at hMem
    unfold List.dropPrefix?
    rw [if_neg]
    rw [beq_iff_eq]
    exact Ne.symm hMem.1

theorem parseUnsigned_toString {n bound : Nat} (hLt : n < bound) :
    parseUnsigned bound (toString n).toList = some n := by
  have hDigits : (toString n).toList = Nat.toDigits 10 n := Nat.toList_repr
  have hPlus : '+' ∉ (toString n).toList :=
    not_mem_of_forall (fun c hMem => isDigit_of_mem_toString hMem) (by decide)
  unfold parseUnsigned
  rw [dropPrefix_of_not_mem hPlus]
  dsimp only [Option.getD_none]
  rw [if_neg]
  · rw [hDigits, Nat.ofDigitChars_ten_toDigits, if_pos hLt]
  · rw [not_or, Bool.not_eq_false]
    constructor
    · rw [hDigits]
      exact Nat.toDigits_ne_nil
    · exact List.all_eq_true.mpr (fun c hMem => isDigit_of_mem_toString hMem)

/- A branch is read as it is written. -/
theorem parseDerivation_toString (position : Nat) (branch : UInt32) :
    parseDerivation position ((toString branch).toList ++ ['/', '*']) = .ok [branch] := by
  have hDigits : ∀ c ∈ (toString branch).toList, c.isDigit = true :=
    fun c hMem => isDigit_of_mem_toString hMem
  have hNot :
      ∀ c : Char, c.isDigit = false → c ≠ '/' → c ≠ '*' →
        ((toString branch).toList ++ ['/', '*']).contains c = false := by
    intro c hDigit hSlash hStar
    rw [← Bool.not_eq_true, List.contains_iff_mem, List.mem_append, not_or]
    constructor
    · intro hMem
      rw [hDigits c hMem] at hDigit
      cases hDigit
    · simp [hSlash, hStar]
  unfold parseDerivation
  rw [hNot _ (by decide) (by decide) (by decide), hNot _ (by decide) (by decide) (by decide),
    hNot _ (by decide) (by decide) (by decide)]
  rw [if_neg (by decide), splitOnce_append (not_mem_of_forall hDigits (by decide)) ['*']]
  dsimp only [Option.getD_some]
  rw [if_neg (not_not.mpr rfl)]
  unfold branchTexts stripAround
  rw [dropPrefix_of_not_mem (not_mem_of_forall hDigits (by decide))]
  dsimp only [Option.bind_none]
  have hTrim : trimChars (toString branch).toList = (toString branch).toList := by
    unfold trimChars
    rw [trim_of_forall (fun c hMem => (of_isDigit (hDigits c hMem)).1), String.toList_ofList]
  have hBranch : addBranch position [] (toString branch).toList = .ok [branch] := by
    unfold addBranch
    rw [hTrim]
    dsimp only
    have hParse : parseUnsigned (2 ^ 32) (toString branch).toList = some branch.toNat :=
      parseUnsigned_toString branch.toNat_lt
    rw [hParse]
    dsimp only
    rw [UInt32.ofNat_toNat]
    rfl
  rw [bind_of_ok rfl]
  rw [List.foldlM_cons, hBranch]
  rfl

--- Checksums

theorem exists_push {character : Char} (hMem : character ∈ descriptorInputCharset)
    (state : ChecksumState) : ∃ next, state.push character = some next := by
  have hIndex :
      ∃ position,
        descriptorInputCharset.findIdx? (fun c => decide (c = character)) = some position := by
    rw [← Option.isSome_iff_exists, List.findIdx?_isSome, List.any_eq_true]
    exact ⟨character, hMem, decide_eq_true rfl⟩
  rcases hIndex with ⟨position, hIndex⟩
  unfold ChecksumState.push
  rw [hIndex]
  dsimp only [bind, Option.bind]
  split
  · exact ⟨_, rfl⟩
  · exact ⟨_, rfl⟩

/- By induction over the text. -/
theorem exists_foldlM_push (hText : ∀ c ∈ text, c ∈ descriptorInputCharset)
    (state : ChecksumState) : ∃ final, text.foldlM ChecksumState.push state = some final := by
  induction text generalizing state with
  | nil => exact ⟨state, rfl⟩
  | cons c text ih =>
    rw [List.forall_mem_cons] at hText
    rcases exists_push hText.1 state with ⟨next, hNext⟩
    rcases ih hText.2 next with ⟨final, hFinal⟩
    refine ⟨final, ?_⟩
    rw [List.foldlM_cons, hNext]
    exact hFinal

/- The characters of a checksum separate nothing either. -/
theorem exists_descriptorChecksum (hText : ∀ c ∈ text, c ∈ descriptorInputCharset) :
    ∃ checksum,
    descriptorChecksum text = some checksum ∧
      checksum.length = 8 ∧
      ∀ c ∈ checksum, isKeyChar c = true := by
  rcases exists_foldlM_push hText { chk := 1, groups := [] } with ⟨final, hFinal⟩
  unfold descriptorChecksum
  rw [hFinal]
  refine ⟨_, rfl, ?_, ?_⟩
  · rw [List.length_map, List.length_range]
  · intro c hMem
    rcases List.mem_map.mp hMem with ⟨index, -, rfl⟩
    dsimp only
    generalize ((final.finish >>> UInt64.ofNat (5 * (7 - index))) &&& 31).toNat = symbol
    have hAll : descriptorChecksumCharset.all isKeyChar = true := by decide +kernel
    cases hSymbol : descriptorChecksumCharset[symbol]? with
    | none => decide +kernel
    | some c => exact List.all_eq_true.mp hAll c (List.mem_of_getElem? hSymbol)

--- Keys

/- An account's path, below the master key. -/
def pathLevels (account : AccountPath) : List Char :=
  "44'/".toList ++ (toString account.coinType).toList ++ "'/".toList ++
    (toString account.account).toList ++ "'".toList

variable (account : AccountPath)

theorem toList_toString_account : account.toString.toList = "m/".toList ++ pathLevels account := by
  unfold AccountPath.toString pathLevels
  simp only [String.toList_append]
  rfl

theorem dropPrefix_append (before text : List Char) :
    (before ++ text).dropPrefix? before = some text :=
  List.dropPrefix?_eq_some_iff.mpr ⟨before, rfl, beq_self_eq_true _⟩

theorem originPath_eq : originPath account = pathLevels account := by
  unfold originPath
  dsimp only
  rw [toList_toString_account, dropPrefix_append]
  rfl

theorem isKeyChar_of_mem_pathLevels {account : AccountPath} (hMem : c ∈ pathLevels account) :
    isKeyChar c = true := by
  unfold pathLevels at hMem
  simp only [List.mem_append] at hMem
  rcases hMem with (((hMem | hMem) | hMem) | hMem) | hMem
  · exact isKeyChar_of_mem (by decide +kernel) hMem
  · exact (of_isDigit (isDigit_of_mem_toString hMem)).1
  · exact isKeyChar_of_mem (by decide +kernel) hMem
  · exact (of_isDigit (isDigit_of_mem_toString hMem)).1
  · exact isKeyChar_of_mem (by decide +kernel) hMem

theorem length_toString_le (n : UInt32) : (toString n).toList.length ≤ 10 := by
  have hDigits : (toString n).toList = Nat.toDigits 10 n.toNat := Nat.toList_repr
  rw [hDigits, Nat.length_toDigits_le_iff (by decide) (by decide)]
  exact n.toNat_lt.trans (by decide)

theorem length_pathLevels_le : (pathLevels account).length ≤ 27 := by
  have hCoin := length_toString_le account.coinType
  have hAccount := length_toString_le account.account
  unfold pathLevels
  simp only [List.length_append]
  have hFirst : "44'/".toList.length = 4 := rfl
  have hSecond : "'/".toList.length = 2 := rfl
  have hThird : "'".toList.length = 1 := rfl
  omega

variable {κ : Type} {bip32 : Bip32 κ}

def Cosigner.fingerprint (cosigner : Cosigner) : String :=
  toAsciiLowercase (Text.trim (cosigner.masterFingerprint.getD ""))

def Cosigner.xpub (cosigner : Cosigner) : String := Text.trim cosigner.accountXpub

/- A cosigner whose key can be written with its origin. -/
structure IsExportable (bip32 : Bip32 κ) (cosigner : Cosigner) : Prop where
  fingerprint : IsFingerprint (Text.trim (cosigner.masterFingerprint.getD ""))
  account : ∃ xpub, bip32.parseMultisigAccountXpub cosigner.accountXpub = .ok xpub

def Cosigner.listed (account : AccountPath) (cosigner : Cosigner) : ListedKey :=
  { sortKey := cosigner.fingerprint ++ cosigner.xpub
    text :=
      ['['] ++ cosigner.fingerprint.toList ++ ['/'] ++
        originPath account ++ [']'] ++ cosigner.xpub.toList }

variable {cosigner : Cosigner}

theorem listedKey_eq_ok_iff {account : AccountPath} {index : Nat} {key : ListedKey} :
    listedKey bip32 account index cosigner = .ok key ↔
    IsExportable bip32 cosigner ∧ key = cosigner.listed account := by
  unfold listedKey
  rw [bind_eq_ok_iff]
  constructor
  · rintro ⟨normalized, hNormalized, hRest⟩
    cases normalized with
    | none => cases hRest
    | some fingerprint =>
      rcases normalizeMasterFingerprint_eq_some_iff.mp hNormalized with ⟨hFingerprint, rfl⟩
      rcases bind_eq_ok_iff.mp hRest with ⟨xpub, hXpub, hKey⟩
      exact ⟨⟨hFingerprint, xpub, hXpub⟩, (Except.ok.inj hKey).symm⟩
  · rintro ⟨⟨hFingerprint, xpub, hXpub⟩, rfl⟩
    refine ⟨_, normalizeMasterFingerprint_eq_some_iff.mpr ⟨hFingerprint, rfl⟩, ?_⟩
    exact bind_of_ok hXpub _

theorem fromStr_of_parse {xpub : κ} (hXpub : bip32.parseMultisigAccountXpub raw = .ok xpub) :
    bip32.fromStr (Text.trim raw) = some xpub := by
  unfold Bip32.parseMultisigAccountXpub at hXpub
  dsimp only at hXpub
  split at hXpub
  · cases hXpub
  cases hFrom : bip32.fromStr (Text.trim raw) with
  | none =>
    rw [hFrom] at hXpub
    cases hXpub
  | some found =>
    rw [hFrom] at hXpub
    dsimp only at hXpub
    split at hXpub
    · cases hXpub
    · cases hXpub
      rfl

/- Only the trimmed text of a key is read. -/
theorem parseMultisigAccountXpub_trim (hTrim : Text.trim (Text.trim raw) = Text.trim raw) :
    bip32.parseMultisigAccountXpub (Text.trim raw) = bip32.parseMultisigAccountXpub raw := by
  unfold Bip32.parseMultisigAccountXpub
  rw [hTrim]

theorem IsExportable.base58 (hExportable : IsExportable bip32 cosigner)
    (hBase58 : bip32.ReadsBase58) :
    cosigner.xpub.toList.length ≤ 112 ∧ ∀ c ∈ cosigner.xpub.toList, isBase58 c = true := by
  rcases hExportable.account with ⟨xpub, hXpub⟩
  exact hBase58 _ xpub (fromStr_of_parse hXpub)

theorem IsExportable.trim_xpub (hExportable : IsExportable bip32 cosigner)
    (hBase58 : bip32.ReadsBase58) : Text.trim cosigner.xpub = cosigner.xpub := by
  have hTrim :=
    trim_of_forall (fun c hMem => (isKeyChar_of_isBase58 ((hExportable.base58 hBase58).2 c hMem)).1)
  rwa [String.ofList_toList] at hTrim

/- What a key that was written is read as. -/
def Cosigner.exported (account : AccountPath) (cosigner : Cosigner) : DescriptorKey :=
  { masterFingerprint := cosigner.fingerprint
    accountPath := account.toString
    accountXpub := cosigner.xpub }

/- The text of a key with a branch. -/
def keyText (branch : UInt32) (key : ListedKey) : List Char :=
  key.text ++ ['/'] ++ (toString branch).toList ++ ['/', '*']

theorem orUsage_some_bind {α β : Type} (a : α) (message : String) (next : α → Except CliError β) :
    (orUsage (some a) message >>= next) = next a := rfl

/- A key with its origin, and what is behind it. -/
theorem parseDescriptorKey_parts
    {fingerprint origin xpub derivation : List Char}
    {normalized : String}
    {index : Nat}
    {branches : List UInt32}
    {account : κ}
    (hClose : ']' ∉ fingerprint ++ '/' :: origin)
    (hSlash : '/' ∉ fingerprint)
    (hBranch : '/' ∉ xpub)
    (hNormal : normalizeMasterFingerprint (String.ofList fingerprint) = .ok (some normalized))
    (hDerivation : parseDerivation (index + 1) derivation = .ok branches)
    (hAccount : bip32.parseMultisigAccountXpub (String.ofList xpub) = .ok account) :
    parseDescriptorKey bip32
        (['['] ++ ((fingerprint ++ '/' :: origin) ++ ']' :: (xpub ++ '/' :: derivation))) index =
      .ok
        ({ masterFingerprint := normalized
           accountPath := String.ofList ("m/".toList ++ origin)
           accountXpub := String.ofList xpub },
          branches) := by
  unfold parseDescriptorKey
  dsimp only
  rw [dropPrefix_append, orUsage_some_bind, splitOnce_append hClose, orUsage_some_bind]
  dsimp only
  rw [splitOnce_append hSlash, orUsage_some_bind]
  dsimp only
  rw [bind_of_ok hNormal, orUsage_some_bind, splitOnce_append hBranch, orUsage_some_bind]
  dsimp only
  rw [bind_of_ok hDerivation, bind_of_ok hAccount]

theorem parseDescriptorKey_keyText (hExportable : IsExportable bip32 cosigner)
    (hBase58 : bip32.ReadsBase58) (account : AccountPath) (branch : UInt32) (index : Nat) :
    parseDescriptorKey bip32 (keyText branch (cosigner.listed account)) index =
      .ok (cosigner.exported account, [branch]) := by
  have hText :
      keyText branch (cosigner.listed account) = ['['] ++
          ((cosigner.fingerprint.toList ++ '/' :: pathLevels account) ++ ']' ::
            (cosigner.xpub.toList ++ '/' :: ((toString branch).toList ++ ['/', '*']))) := by
    unfold keyText Cosigner.listed
    rw [originPath_eq]
    simp only [List.append_assoc, List.cons_append, List.nil_append]
  have hLower := (of_isFingerprint hExportable.fingerprint).2
  have hXpub := (hExportable.base58 hBase58).2
  have hClose : ']' ∉ cosigner.fingerprint.toList ++ '/' :: pathLevels account := by
    rw [List.mem_append, List.mem_cons, not_or, not_or]
    refine ⟨?_, by decide, ?_⟩
    · exact not_mem_of_forall hLower (by decide)
    · exact not_mem_of_forall (fun c hMem => isKeyChar_of_mem_pathLevels hMem) (by decide)
  have hSlash : '/' ∉ cosigner.fingerprint.toList := not_mem_of_forall hLower (by decide)
  have hBranch : '/' ∉ cosigner.xpub.toList := not_mem_of_forall hXpub (by decide)
  rcases hExportable.account with ⟨xpub, hParse⟩
  rw [← parseMultisigAccountXpub_trim (hExportable.trim_xpub hBase58)] at hParse
  have hNormal := normalizeMasterFingerprint_toAsciiLowercase hExportable.fingerprint
  have hRead :=
    parseDescriptorKey_parts hClose hSlash hBranch
      (by rw [String.ofList_toList]; exact hNormal)
      (parseDerivation_toString (index + 1) branch)
      (by rw [String.ofList_toList]; exact hParse)
  rw [← toList_toString_account, String.ofList_toList, String.ofList_toList] at hRead
  rw [hText]
  exact hRead

end Multisig

end OptnWallet
