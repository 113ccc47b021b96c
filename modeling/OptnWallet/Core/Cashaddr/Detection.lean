import OptnWallet.Core.Cashaddr.Canonical
import OptnWallet.Library.TrimmedText

/-
  One character of an address, replaced by another.  The checksum tells any two symbols apart, so
  the address is still accepted only where the two characters are the same in lower case, or are
  trimmed.

  Main declarations:
    * `UnicodeTables.Standard`
    * `Cashaddr.replaced_symbol`
    * `Address.replaced_iff`
    * `Address.written_symbols_iff`
-/

--- Unicode

namespace OptnWallet

open TrimmedText

namespace UnicodeTables

def kelvinSign : Char := Char.ofNat 0x212a

def dottedCapitalI : Char := Char.ofNat 0x130

/- What is used of the Unicode data.  One character has a lower case of two, and no other one than
   these two has a lower case in ASCII. -/
structure Standard (tables : UnicodeTables) : Prop where
  single : ∀ c, 128 ≤ c.toNat → c ≠ dottedCapitalI → ∃ x, tables.lowercase c = [x]
  dotted : tables.lowercase dottedCapitalI = ['i', Char.ofNat 0x307]
  ascii : ∀ c x, 128 ≤ c.toNat → tables.lowercase c = [x] → x.toNat < 128 → c = kelvinSign
  kelvin : tables.lowercase kelvinSign = ['k']
  space : ∀ c, 128 ≤ c.toNat → Text.isWhitespace c = true → tables.lowercase c = [c]
  cased :
    ∀ c ∈ ['q', 'p', 'z', 'r', 'Q', 'P', 'Z', 'R'],
    tables.cased c = true ∧ tables.caseIgnorable c = false

variable {tables : UnicodeTables}

/- The lower case of a character is one character, but for the one that has two. -/
theorem Standard.lower_cases (hStandard : tables.Standard) (c : Char) :
    (c.toNat < 128 ∧ tables.charToLowercase c = [c.toLower]) ∨
    (c = kelvinSign ∧ tables.charToLowercase c = ['k']) ∨
    (c = dottedCapitalI ∧ tables.charToLowercase c = ['i', Char.ofNat 0x307]) ∨
    (128 ≤ c.toNat ∧ ∃ x, 128 ≤ x.toNat ∧ tables.charToLowercase c = [x]) := by
  unfold charToLowercase
  by_cases hAscii : c.toNat < 128
  · left
    rw [if_pos hAscii]
    exact ⟨hAscii, rfl⟩
  · right
    rw [if_neg hAscii]
    by_cases hDotted : c = dottedCapitalI
    · right
      left
      rw [hDotted]
      exact ⟨rfl, hStandard.dotted⟩
    · rcases hStandard.single c (by omega) hDotted with ⟨x, hLower⟩
      by_cases hX : x.toNat < 128
      · left
        have hKelvin := hStandard.ascii c x (by omega) hLower hX
        rw [hKelvin]
        exact ⟨rfl, hStandard.kelvin⟩
      · right
        right
        exact ⟨by omega, x, by omega, hLower⟩

/- Lower case does not make a colon. -/
theorem Standard.colon_not_mem (hStandard : tables.Standard) {c : Char} (hColon : c ≠ ':') :
    ':' ∉ tables.charToLowercase c := by
  rcases hStandard.lower_cases c with ⟨hAscii, hLower⟩ | ⟨-, hLower⟩ | ⟨-, hLower⟩ |
    ⟨-, x, hX, hLower⟩
  · rw [hLower, List.mem_singleton]
    have hAll : ∀ code < 128, ':' = (Char.ofNat code).toLower → Char.ofNat code = ':' := by
      decide +kernel
    intro hSame
    have hHere := hAll c.toNat hAscii
    rw [Char.ofNat_toNat] at hHere
    exact hColon (hHere hSame)
  · rw [hLower]
    decide
  · rw [hLower]
    decide
  · rw [hLower, List.mem_singleton]
    rintro rfl
    exact absurd hX (by decide)

--- Words

/- The lower case of what is in front of other text, of which only matters whether a cased letter
   comes first. -/
def lowerFront (tables : UnicodeTables) (followed : Bool) : List Char → List Char → List Char
  | _, [] => []
  | before, c :: rest =>
    (if c = capitalSigma then
      if tables.ignorableThenCased before && !(match rest.dropWhile tables.caseIgnorable with
            | d :: _ => tables.cased d
            | [] => followed)
      then [Char.ofNat 0x3c2]
      else [Char.ofNat 0x3c3]
    else tables.charToLowercase c) ++ lowerFront tables followed (c :: before) rest

/- By induction over what is in front. -/
theorem toLowercaseAfter_append (before front back : List Char) :
    tables.toLowercaseAfter before (front ++ back) =
      tables.lowerFront (tables.ignorableThenCased back) before front ++
        tables.toLowercaseAfter (front.reverse ++ before) back := by
  induction front generalizing before with
  | nil => rfl
  | cons c front ih =>
    have hNext :
        tables.ignorableThenCased (front ++ back) =
          match front.dropWhile tables.caseIgnorable with
          | d :: _ => tables.cased d
          | [] => tables.ignorableThenCased back := by
      unfold ignorableThenCased
      rw [List.dropWhile_append]
      cases front.dropWhile tables.caseIgnorable with
      | nil => rfl
      | cons d rest => rfl
    rw [List.cons_append, toLowercaseAfter, lowerFront, ih, hNext, List.reverse_cons,
      List.append_assoc, List.append_assoc, List.singleton_append]

/- Neither form of the small sigma is in ASCII. -/
theorem sigma_not_ascii (final : Bool) (rest : List Char) :
    ¬ ∀ x ∈ (if final = true then [Char.ofNat 0x3c2]
          else [Char.ofNat 0x3c3]) ++ rest,
      x.toNat < 128 := by
  intro hAll
  cases final with
  | true => exact absurd (hAll _ List.mem_cons_self) (by decide)
  | false => exact absurd (hAll _ List.mem_cons_self) (by decide)

theorem Standard.colon_not_mem_front (hStandard : tables.Standard) (followed : Bool)
    {front : List Char} (hColon : ':' ∉ front) (before : List Char) :
    ':' ∉ tables.lowerFront followed before front := by
  induction front generalizing before with
  | nil => exact List.not_mem_nil
  | cons c front ih =>
    rw [List.mem_cons, not_or] at hColon
    unfold lowerFront
    rw [List.mem_append, not_or]
    refine ⟨?_, ih hColon.2 _⟩
    have hSigma :
        ∀ final : Bool,
          ':' ∉
            if final = true then [Char.ofNat 0x3c2]
            else [Char.ofNat 0x3c3] := by
      decide
    split
    · exact hSigma _
    · exact hStandard.colon_not_mem (Ne.symm hColon.1)

end UnicodeTables

--- Symbols

namespace Cashaddr

theorem forall₂_of_append {α β : Type} {R : α → β → Prop} {front back : List α} {outputs : List β}
    (hEach : List.Forall₂ R (front ++ back) outputs) :
    ∃ left right,
    outputs = left ++ right ∧ List.Forall₂ R front left ∧ List.Forall₂ R back right := by
  refine
    ⟨outputs.take front.length, outputs.drop front.length, (List.take_append_drop _ _).symm, ?_, ?_⟩
  · have hTake := List.forall₂_take front.length hEach
    rw [List.take_left] at hTake
    exact hTake
  · have hDrop := List.forall₂_drop front.length hEach
    rw [List.drop_left] at hDrop
    exact hDrop

theorem exists_of_forall₂ {α β : Type} {R : α → β → Prop} {inputs : List α} {outputs : List β}
    (hEach : List.Forall₂ R inputs outputs) {a : α} (hMem : a ∈ inputs) : ∃ b, R a b := by
  induction hEach with
  | nil => cases hMem
  | cons hHere _ ih =>
    rcases List.mem_cons.mp hMem with rfl | hRest
    · exact ⟨_, hHere⟩
    · exact ih hRest

section Replaced

variable {Reads : Char → UInt8 → Prop} {front back : List Char} {c d : Char}
variable {before symbols symbols' : List UInt8}

/-
  Accepted behind one prefix, symbols that are read from texts with one character replaced are the
  same.
-/
theorem replaced_symbol (hUnique : Relator.RightUnique Reads)
    (hReads : List.Forall₂ Reads (front ++ c :: back) symbols)
    (hReads' : List.Forall₂ Reads (front ++ d :: back) symbols')
    (hAccepts : polymod (before ++ symbols) = 0) (hAccepts' : polymod (before ++ symbols') = 0) :
    ∃ digit, Reads c digit ∧ Reads d digit := by
  rcases forall₂_of_append hReads with ⟨left, right, rfl, hLeft, hRight⟩
  rcases forall₂_of_append hReads' with ⟨left', right', rfl, hLeft', hRight'⟩
  cases hRight with
  | cons hC hBack =>
    cases hRight' with
    | cons hD hBack' =>
      have hSameLeft := List.right_unique_forall₂' hUnique hLeft hLeft'
      have hSameBack := List.right_unique_forall₂' hUnique hBack hBack'
      subst hSameLeft hSameBack
      rw [← List.append_assoc] at hAccepts hAccepts'
      have hDigit := polymod_replaced (hAccepts.trans hAccepts'.symm)
      subst hDigit
      exact ⟨_, hC, hD⟩

/- A character that is read as the same symbol changes nothing. -/
theorem reads_replaced (hReads : List.Forall₂ Reads (front ++ c :: back) symbols)
    (hSame : ∀ digit, Reads c digit → Reads d digit) :
    List.Forall₂ Reads (front ++ d :: back) symbols := by
  rcases forall₂_of_append hReads with ⟨left, right, rfl, hLeft, hRight⟩
  cases hRight with
  | cons hC hBack => exact List.rel_append hLeft (List.Forall₂.cons (hSame _ hC) hBack)

end Replaced

end Cashaddr

--- Written Payloads

namespace Address

open Cashaddr

/- A character whose lower case is the character of a symbol. -/
def ReadsAs (tables : UnicodeTables) (c : Char) (digit : UInt8) : Prop :=
  digit.toNat < 2 ^ 5 ∧ c ≠ UnicodeTables.capitalSigma ∧ tables.charToLowercase c = [charOf digit]

/- What is behind the prefix of a trimmed text. -/
def payloadText (text : List Char) : List Char :=
  match splitOnce ':' text with
  | some parts => parts.2
  | none => text

/- The prefix in lower case, where a cased letter is behind its colon. -/
def prefixText (tables : UnicodeTables) (text : List Char) : List Char :=
  match splitOnce ':' text with
  | some parts => tables.lowerFront
      (if tables.caseIgnorable ':' then true
        else tables.cased ':')
      [] parts.1
  | none => "bitcoincash".toList

variable {tables : UnicodeTables}

theorem readsAs_unique : Relator.RightUnique (ReadsAs tables) := by
  intro c digit digit' hReads hReads'
  have hChars : [digit].map charOf = [digit'].map charOf := hReads.2.2.symm.trans hReads'.2.2
  have hDigits :=
    charOf_inj (List.forall_mem_singleton.mpr hReads.1) (List.forall_mem_singleton.mpr hReads'.1)
      hChars
  exact (List.cons.inj hDigits).1

variable {c : Char} {digit : UInt8}

section

variable (hStandard : tables.Standard) (hReads : ReadsAs tables c digit)
include hStandard hReads

/- Such a character is one of the alphabet in either case, or the one character beyond ASCII that
   has a lower case in it. -/
theorem char_of_readsAs :
    (c.toNat < 128 ∧ c.toLower = charOf digit) ∨
    (c = UnicodeTables.kelvinSign ∧ charOf digit = 'k') := by
  have hPlain := (digit_facts hReads.1).1
  rcases hStandard.lower_cases c with
    ⟨hAscii, hLower⟩ | ⟨hKelvin, hLower⟩ | ⟨-, hLower⟩ | ⟨-, x, hX, hLower⟩ <;>
    rw [hReads.2.2] at hLower
  · exact Or.inl ⟨hAscii, (List.cons.inj hLower).1.symm⟩
  · exact Or.inr ⟨hKelvin, (List.cons.inj hLower).1⟩
  · exact absurd (congrArg List.length hLower) (by simp)
  · exfalso
    have hAscii := hPlain.ascii
    rw [(List.cons.inj hLower).1] at hAscii
    omega

theorem plain_of_readsAs : Text.isWhitespace c = false ∧ c ≠ ':' := by
  rcases char_of_readsAs hStandard hReads with ⟨hAscii, hLower⟩ | ⟨rfl, -⟩
  · have hAll :
        ∀ code < 128,
        ∀ low < 2 ^ 5,
          (Char.ofNat code).toLower = charOf (UInt8.ofNat low) →
            Text.isWhitespace (Char.ofNat code) = false ∧ Char.ofNat code ≠ ':' := by
      decide +kernel
    have hHere := hAll c.toNat hAscii digit.toNat hReads.1
    rw [Char.ofNat_toNat, UInt8.ofNat_toNat] at hHere
    exact hHere hLower
  · decide

/- The letters of the first symbols have a case. -/
theorem cased_of_readsAs (hFirst : digit.toNat < 4) :
    tables.cased c = true ∧ tables.caseIgnorable c = false := by
  apply hStandard.cased
  rcases char_of_readsAs hStandard hReads with ⟨hAscii, hLower⟩ | ⟨-, hKelvin⟩
  · have hAll :
        ∀ code < 128,
        ∀ low < 4,
          (Char.ofNat code).toLower = charOf (UInt8.ofNat low) →
            Char.ofNat code ∈ ['q', 'p', 'z', 'r', 'Q', 'P', 'Z', 'R'] := by
      decide +kernel
    have hHere := hAll c.toNat hAscii digit.toNat hFirst
    rw [Char.ofNat_toNat, UInt8.ofNat_toNat] at hHere
    exact hHere hLower
  · exfalso
    have hAll : ∀ low < 4, charOf (UInt8.ofNat low) ≠ 'k' := by decide
    have hHere := hAll digit.toNat hFirst
    rw [UInt8.ofNat_toNat] at hHere
    exact hHere hKelvin

end

variable {text : List Char} {digits : List UInt8}

/- By induction over the text. -/
theorem lower_of_reads (hReads : List.Forall₂ (ReadsAs tables) text digits) (before : List Char) :
    tables.toLowercaseAfter before text = digits.map charOf := by
  induction hReads generalizing before with
  | nil => rfl
  | cons hHere _ ih =>
    unfold UnicodeTables.toLowercaseAfter
    rw [if_neg hHere.2.1, hHere.2.2, ih]
    rfl

/- By induction over the text: no character has a lower case of more than one symbol. -/
theorem reads_of_lower (hStandard : tables.Standard)
    (hSmall : ∀ digit ∈ digits, digit.toNat < 2 ^ 5) {before : List Char}
    (hLower : tables.toLowercaseAfter before text = digits.map charOf) :
    List.Forall₂ (ReadsAs tables) text digits := by
  induction text generalizing before digits with
  | nil =>
    rw [List.map_eq_nil_iff.mp hLower.symm]
    exact List.Forall₂.nil
  | cons c text ih =>
    unfold UnicodeTables.toLowercaseAfter at hLower
    have hAscii : ∀ x ∈ digits.map charOf, x.toNat < 128 :=
      fun x hMem => (plain_digits hSmall x hMem).ascii
    by_cases hSigma : c = UnicodeTables.capitalSigma
    · exfalso
      rw [if_pos hSigma] at hLower
      rw [← hLower] at hAscii
      exact UnicodeTables.sigma_not_ascii _ _ hAscii
    · rw [if_neg hSigma] at hLower
      have hOne : ∃ x, tables.charToLowercase c = [x] := by
        rcases hStandard.lower_cases c with ⟨-, hHere⟩ | ⟨-, hHere⟩ | ⟨-, hHere⟩ | ⟨-, x, -, hHere⟩
        · exact ⟨_, hHere⟩
        · exact ⟨_, hHere⟩
        · exfalso
          rw [hHere] at hLower
          rw [← hLower] at hAscii
          exact absurd
              (hAscii (Char.ofNat 0x307)
                (List.mem_append_left _ (List.mem_cons_of_mem _ List.mem_cons_self)))
              (by decide)
        · exact ⟨_, hHere⟩
      rcases hOne with ⟨x, hX⟩
      rw [hX, List.singleton_append] at hLower
      cases digits with
      | nil => cases hLower
      | cons digit digits =>
        rw [List.forall_mem_cons] at hSmall
        rw [List.map_cons] at hLower
        rcases List.cons.inj hLower with ⟨hChar, hRest⟩
        refine List.Forall₂.cons ⟨hSmall.1, hSigma, ?_⟩ (ih hSmall.2 hRest)
        rw [hX, hChar]

--- Written Addresses

section

variable (input : String)

/- What is entered, trimmed. -/
def trimmedText : List Char := trimmed Text.isWhitespace input.toList

theorem trim_toList : (Text.trim input).toList = trimmedText input := by
  unfold Text.trim
  rw [String.toList_ofList]
  rfl

theorem trim_trim : (Text.trim (Text.trim input)).toList = (Text.trim input).toList := by
  rw [trim_toList, trimmedText, trim_toList, trimmedText, trimmed_trimmed]

theorem trim_infix : (Text.trim input).toList <:+: input.toList := by
  rw [trim_toList]
  exact trimmed_infix _

end

theorem lower_colon (before back : List Char) :
    tables.toLowercaseAfter before (':' :: back) =
      ':' :: tables.toLowercaseAfter (':' :: before) back := by
  have hSigma : ':' ≠ UnicodeTables.capitalSigma := by decide
  have hLower : tables.charToLowercase ':' = [':'] := rfl
  rw [UnicodeTables.toLowercaseAfter, if_neg hSigma, hLower]
  rfl

/- The lower case of a text splits where the text does. -/
theorem splitOnce_lower (hStandard : tables.Standard) (text : List Char) :
    splitOnce ':' (tables.toLowercase text) = (splitOnce ':' text).map
        (fun parts => (tables.lowerFront (tables.ignorableThenCased (':' :: parts.2)) [] parts.1,
            tables.toLowercaseAfter (':' :: parts.1.reverse) parts.2)) := by
  unfold UnicodeTables.toLowercase
  cases hSplit : splitOnce ':' text with
  | none =>
    have hColon :=
      hStandard.colon_not_mem_front (tables.ignorableThenCased []) (splitOnce_eq_none hSplit) []
    have hLower := tables.toLowercaseAfter_append [] text []
    rw [List.append_nil, UnicodeTables.toLowercaseAfter, List.append_nil] at hLower
    rw [← hLower] at hColon
    exact splitOnce_of_not_mem hColon
  | some parts =>
    rcases splitOnce_eq_some hSplit with ⟨hFree, hText⟩
    rw [hText, UnicodeTables.toLowercaseAfter_append, lower_colon,
      splitOnce_append (hStandard.colon_not_mem_front _ hFree []), List.append_nil]
    rfl

/- The payload in lower case is the lower case of what is written of it. -/
theorem payload_of_split (hStandard : tables.Standard) (text : List Char) :
    ∃ before,
    (splitPrefix (tables.toLowercase text)).2 =
      tables.toLowercaseAfter before (payloadText text) := by
  unfold splitPrefix payloadText
  rw [splitOnce_lower hStandard]
  cases splitOnce ':' text with
  | none => exact ⟨[], rfl⟩
  | some parts => exact ⟨_, rfl⟩

theorem split_of_reads (hStandard : tables.Standard)
    (hReads : List.Forall₂ (ReadsAs tables) (payloadText text) (digit :: digits))
    (hFirst : digit.toNat < 4) :
    splitPrefix (tables.toLowercase text) =
      (prefixText tables text, (digit :: digits).map charOf) := by
  unfold payloadText at hReads
  unfold splitPrefix prefixText
  rw [splitOnce_lower hStandard]
  cases hSplit : splitOnce ':' text with
  | none =>
    rw [hSplit] at hReads
    exact congrArg (Prod.mk _) (lower_of_reads hReads [])
  | some parts =>
    rw [hSplit] at hReads
    dsimp only [Option.map_some] at hReads ⊢
    have hFollowed :
        tables.ignorableThenCased (':' :: parts.2) =
          if tables.caseIgnorable ':' then true
          else tables.cased ':' := by
      cases hBack : parts.2 with
      | nil =>
        rw [hBack] at hReads
        cases hReads
      | cons c back =>
        rw [hBack] at hReads
        cases hReads with
        | cons hHere _ =>
          have hCased := cased_of_readsAs hStandard hHere hFirst
          unfold UnicodeTables.ignorableThenCased
          cases hColon : tables.caseIgnorable ':' with
          | true => simp [hColon, hCased]
          | false => simp [hColon]
    rw [hFollowed, lower_of_reads hReads]

/- What is accepted of a trimmed text: a payload of forty-two symbols, the first of a type that is
   known, with a checksum that the prefix makes vanish. -/
structure Written (tables : UnicodeTables) (text : List Char) (digit : UInt8)
    (digits : List UInt8) : Prop where
  reads : List.Forall₂ (ReadsAs tables) (payloadText text) (digit :: digits)
  first : digit.toNat < 4
  length : digits.length = 41
  accepts : polymod (prefixSymbols (prefixText tables text) ++ [0] ++ (digit :: digits)) = 0

variable {address : Address}

theorem Accepts.first_lt {parts : List Char × List Char} {payload5 checks payload8 : List UInt8}
    (hAccepts : Accepts parts address payload5 checks payload8) {digit' : UInt8}
    (hDigits : payload5 = digit :: digit' :: digits) : digit.toNat < 4 := by
  rcases of_ofPayload hAccepts.payload with ⟨-, version, hPayload, hVersion⟩
  have hConvert := hAccepts.converts
  rw [hDigits, hPayload] at hConvert
  have hByte := first_byte hConvert
  have hSmall : digit'.toNat < 2 ^ 5 := by
    apply hAccepts.small
    rw [hDigits]
    simp
  have hKind : address.kind.versionByte.toNat ≤ 24 := by cases address.kind <;> decide
  omega

variable {input : String}

theorem written_of_decode (hStandard : tables.Standard)
    (hDecode : decode tables input = .ok address) :
    ∃ digit digits, Written tables (trimmedText input) digit digits := by
  rcases accepts_of_decode hDecode with ⟨payload5, checks, payload8, hAccepts⟩
  have hLength := hAccepts.payload_length
  unfold partsOf at hAccepts
  rw [trim_toList] at hAccepts
  rcases payload_of_split hStandard (trimmedText input) with ⟨before, hPayload⟩
  have hText := hAccepts.text
  rw [hPayload] at hText
  have hReads := reads_of_lower hStandard hAccepts.small hText
  cases hDigits : payload5 with
  | nil => simp [hDigits] at hLength
  | cons digit rest =>
    cases hRest : rest with
    | nil => simp [hDigits, hRest] at hLength
    | cons digit' digits =>
      rw [hRest] at hDigits
      have hFirst := hAccepts.first_lt hDigits
      rw [hDigits, List.cons_append] at hReads
      refine ⟨digit, digit' :: digits ++ checks, hReads, hFirst, ?_, ?_⟩
      · rw [hDigits, List.length_cons] at hLength
        rw [List.length_append, hAccepts.length]
        omega
      · have hChecks := hAccepts.accepts
        rw [split_of_reads hStandard hReads hFirst, hDigits] at hChecks
        exact hChecks

/- Nothing but the parts decides what is accepted. -/
theorem decode_congr {other : String} (hParts : partsOf tables other = partsOf tables input)
    (hDecode : decode tables input = .ok address) : decode tables other = .ok address := by
  unfold partsOf at hParts
  unfold decode at hDecode ⊢
  dsimp only at hDecode ⊢
  rw [hParts]
  split at hDecode
  · cases hDecode
  · rename_i hSome
    rw [if_neg hSome]
    rcases StagedUpdate.bind_eq_ok_iff.mp hDecode with ⟨symbols, hSymbols, hRest⟩
    rw [StagedUpdate.bind_of_ok hSymbols]
    split at hRest
    · cases hRest
    · rename_i hAccepts
      rw [if_neg hAccepts]
      exact hRest

theorem decode_of_written (hStandard : tables.Standard) {other : String}
    (hDecode : decode tables input = .ok address)
    (hWritten : Written tables (trimmedText input) digit digits)
    (hPrefix : prefixText tables (trimmedText other) = prefixText tables (trimmedText input))
    (hReads : List.Forall₂ (ReadsAs tables) (payloadText (trimmedText other)) (digit :: digits)) :
    decode tables other = .ok address := by
  apply decode_congr ?_ hDecode
  unfold partsOf
  rw [trim_toList, trim_toList, split_of_reads hStandard hReads hWritten.first,
    split_of_reads hStandard hWritten.reads hWritten.first, hPrefix]

--- Another Character

section

variable (front : List Char) (c : Char) (back : List Char)

/- The character is behind the first colon, or there is none and it is anywhere. -/
def BehindPrefix : Prop :=
  ':' ∈ front ∨ ':' ∉ front ++ c :: back

def replaced : String :=
  String.ofList (front ++ c :: back)

end

theorem parts_append {rest : List Char} (hBehind : ':' ∈ text ∨ ':' ∉ text ++ rest) :
    payloadText (text ++ rest) = payloadText text ++ rest ∧
    prefixText tables (text ++ rest) = prefixText tables text := by
  unfold payloadText prefixText
  cases hSplit : splitOnce ':' text with
  | none =>
    have hNone := hBehind.resolve_left (splitOnce_eq_none hSplit)
    rw [splitOnce_of_not_mem hNone]
    exact ⟨rfl, rfl⟩
  | some parts =>
    rcases splitOnce_eq_some hSplit with ⟨hFree, hText⟩
    rw [hText, List.append_assoc, List.cons_append, splitOnce_append hFree]
    exact ⟨rfl, rfl⟩

theorem trimmed_sublist (text : List Char) : (trimmed Text.isWhitespace text).Sublist text :=
  ( trimmed_infix text).sublist

/- The characters in front of the payload of a trimmed text are those in front of the replaced one.
   -/
theorem length_trimmedText (front : List Char) :
    ∃ n,
    ∀ c back,
      BehindPrefix front c back → (trimmedText (replaced front c back)).length =
          n + (payloadText (trimmedText (replaced front c back))).length := by
  unfold trimmedText replaced
  cases hSplit : splitOnce ':' front with
  | none =>
    refine ⟨0, ?_⟩
    intro c back hBehind
    have hColon := hBehind.resolve_left (splitOnce_eq_none hSplit)
    unfold payloadText
    rw [String.toList_ofList, splitOnce_of_not_mem, Nat.zero_add]
    intro hMem
    exact hColon ((trimmed_sublist _).subset hMem)
  | some parts =>
    rcases splitOnce_eq_some hSplit with ⟨hFree, hText⟩
    refine ⟨(parts.1.dropWhile Text.isWhitespace).length + 1, ?_⟩
    intro c back _
    have hFree' : ':' ∉ parts.1.dropWhile Text.isWhitespace :=
      fun hMem => hFree ((List.dropWhile_sublist _).subset hMem)
    rw [String.toList_ofList, hText, List.append_assoc, List.cons_append,
      trimmed_cons (by decide : _ = false)]
    unfold payloadText
    rw [splitOnce_append hFree', List.length_append, List.length_cons]
    dsimp only
    omega

theorem colon_mem_dropWhile {front : List Char} (hMem : ':' ∈ front) :
    ':' ∈ front.dropWhile Text.isWhitespace := by
  rcases List.append_of_mem hMem with ⟨a, b, rfl⟩
  rw [dropWhile_cons (by decide : _ = false)]
  exact List.mem_append_right _ List.mem_cons_self

theorem readsAs_of_lower (hStandard : tables.Standard) (hDigit : digit.toNat < 2 ^ 5)
    (hLower : tables.charToLowercase c = [charOf digit]) : ReadsAs tables c digit := by
  refine ⟨hDigit, ?_, hLower⟩
  rintro rfl
  have hAscii := (digit_facts hDigit).1.ascii
  rcases hStandard.lower_cases UnicodeTables.capitalSigma with ⟨hSmall, -⟩ | ⟨hKelvin, -⟩ |
    ⟨hDotted, -⟩ | ⟨-, x, hX, hSigma⟩
  · exact absurd hSmall (by decide)
  · exact absurd hKelvin (by decide)
  · exact absurd hDotted (by decide)
  · rw [hSigma] at hLower
    rw [(List.cons.inj hLower).1] at hX
    omega

section Replaced

variable {front back : List Char} {c d : Char}

/- The payload around a character that is not trimmed. -/
theorem parts_inside (hBehind : BehindPrefix front c back)
    (hInside :
        trimmedText (replaced front c back) =
          front.dropWhile Text.isWhitespace ++ c :: back.rdropWhile Text.isWhitespace) :
    payloadText (trimmedText (replaced front c back)) =
      payloadText (front.dropWhile Text.isWhitespace) ++ c :: back.rdropWhile Text.isWhitespace ∧
    prefixText tables (trimmedText (replaced front c back)) =
      prefixText tables (front.dropWhile Text.isWhitespace) := by
  have hColon :
      ':' ∈ front.dropWhile Text.isWhitespace ∨
      ':' ∉ front.dropWhile Text.isWhitespace ++ c :: back.rdropWhile Text.isWhitespace := by
    rcases hBehind with hMem | hNone
    · exact Or.inl (colon_mem_dropWhile hMem)
    · right
      intro hMem
      apply hNone
      rw [← hInside] at hMem
      unfold trimmedText replaced at hMem
      rw [String.toList_ofList] at hMem
      exact (trimmed_sublist _).subset hMem
  rw [hInside]
  exact parts_append hColon

theorem replaced_of_accepted (hStandard : tables.Standard) (hBehind : BehindPrefix front c back)
    (hBehind' : BehindPrefix front d back) {digit digit' : UInt8} {digits digits' : List UInt8}
    (hWritten : Written tables (trimmedText (replaced front c back)) digit digits)
    (hWritten' : Written tables (trimmedText (replaced front d back)) digit' digits') :
    (Text.isWhitespace c = true ∧ Text.isWhitespace d = true) ∨
    Text.isWhitespace c = false ∧ Text.isWhitespace d = false ∧
      tables.charToLowercase c = tables.charToLowercase d := by
  have hLength :
      (trimmedText (replaced front c back)).length =
        (trimmedText (replaced front d back)).length := by
    rcases length_trimmedText front with ⟨n, hN⟩
    rw [hN c back hBehind, hN d back hBehind', hWritten.reads.length_eq, hWritten'.reads.length_eq,
      List.length_cons, List.length_cons, hWritten.length, hWritten'.length]
  have hInside :
      ∀ x,
      trimmedText (replaced front x back) = trimmed Text.isWhitespace (front ++ x :: back) := by
    intro x
    unfold trimmedText replaced
    rw [String.toList_ofList]
  rw [hInside, hInside] at hLength
  rcases trimmed_replaced front back hLength with ⟨hC, hD, -⟩ | hTrimmed
  · exact Or.inl ⟨hC, hD⟩
  · right
    have hPartsC :=
      @parts_inside tables front back c hBehind ((hInside c).trans (hTrimmed c (Or.inl rfl)))
    have hPartsD :=
      @parts_inside tables front back d hBehind' ((hInside d).trans (hTrimmed d (Or.inr rfl)))
    have hReads := hWritten.reads
    have hReads' := hWritten'.reads
    have hAccepts := hWritten.accepts
    have hAccepts' := hWritten'.accepts
    rw [hPartsC.1] at hReads
    rw [hPartsD.1] at hReads'
    rw [hPartsC.2] at hAccepts
    rw [hPartsD.2] at hAccepts'
    rcases replaced_symbol readsAs_unique hReads hReads' hAccepts hAccepts' with ⟨symbol, hC, hD⟩
    exact ⟨(plain_of_readsAs hStandard hC).1, (plain_of_readsAs hStandard hD).1,
      hC.2.2.trans hD.2.2.symm⟩

/- Without a prefix, no character becomes the colon of one: what is behind it would be the whole
   payload, and the checksum tells the two prefixes apart. -/
theorem colon_not_accepted (hStandard : tables.Standard) (hFree : ':' ∉ front ++ c :: back)
    {digit digit' : UInt8} {digits digits' : List UInt8}
    (hWritten : Written tables (trimmedText (replaced front c back)) digit digits)
    (hWritten' : Written tables (trimmedText (replaced front ':' back)) digit' digits') :
    False := by
  have hColon : Text.isWhitespace ':' = false := by decide
  have hText' :
      trimmedText (replaced front ':' back) =
        front.dropWhile Text.isWhitespace ++ ':' :: back.rdropWhile Text.isWhitespace := by
    unfold trimmedText replaced
    rw [String.toList_ofList, trimmed_cons hColon]
  have hText :
      trimmedText (replaced front c back) = trimmed Text.isWhitespace (front ++ c :: back) := by
    unfold trimmedText replaced
    rw [String.toList_ofList]
  have hFree' : ':' ∉ front.dropWhile Text.isWhitespace := by
    intro hMem
    exact hFree (List.mem_append_left _ ((List.dropWhile_sublist _).subset hMem))
  have hNone : splitOnce ':' (trimmedText (replaced front c back)) = none := by
    apply splitOnce_of_not_mem
    rw [hText]
    exact fun hMem => hFree ((trimmed_sublist _).subset hMem)
  have hSome :
      splitOnce ':' (trimmedText (replaced front ':' back)) =
        some (front.dropWhile Text.isWhitespace, back.rdropWhile Text.isWhitespace) := by
    rw [hText']
    exact splitOnce_append hFree' _
  have hReads := hWritten.reads
  have hAccepts := hWritten.accepts
  have hReads' := hWritten'.reads
  have hAccepts' := hWritten'.accepts
  unfold payloadText at hReads hReads'
  unfold prefixText at hAccepts hAccepts'
  rw [hNone] at hReads hAccepts
  rw [hSome] at hReads' hAccepts'
  dsimp only at hReads hAccepts hReads' hAccepts'
  have hCount := hReads.length_eq
  have hCount' := hReads'.length_eq
  rw [List.length_cons, hWritten.length, hText] at hCount
  rw [List.length_cons, hWritten'.length] at hCount'
  have hInside :
      trimmed Text.isWhitespace (front ++ c :: back) ≠
        front.dropWhile Text.isWhitespace ++ c :: back.rdropWhile Text.isWhitespace := by
    intro hEq
    rw [hEq, List.length_append, List.length_cons] at hCount
    omega
  cases hBlank : Text.isWhitespace c with
  | false => exact hInside (trimmed_cons hBlank _ _)
  | true =>
    rcases @trimmed_of_blank Char Text.isWhitespace front back with hAll |
      ⟨hFront, hRest⟩ | ⟨hBack, -⟩
    · exact hInside (hAll c)
    · -- the same payload, behind no prefix at all
      have hPlain : ∀ x ∈ back.rdropWhile Text.isWhitespace, Text.isWhitespace x = false := by
        intro x hMem
        rcases exists_of_forall₂ hReads' hMem with ⟨symbol, hX⟩
        exact (plain_of_readsAs hStandard hX).1
      rw [hText, hRest c hBlank, trimmed_of_rdropWhile hPlain] at hReads
      have hSame := List.right_unique_forall₂' readsAs_unique hReads hReads'
      rw [← hSame, hFront] at hAccepts'
      have hFronts := polymod_front (hAccepts.trans hAccepts'.symm)
      have hDiffer :
          polymod (prefixSymbols "bitcoincash".toList ++ [0]) ≠
            polymod (prefixSymbols [] ++ [0]) := by
        decide +kernel
      exact hDiffer hFronts
    · rw [hBack] at hCount'
      exact absurd hCount' (by simp)

/-
  Behind the prefix of an address that is accepted, it stays accepted with one character replaced
  exactly where the two are the same in lower case, or are trimmed.
-/
theorem replaced_iff (hStandard : tables.Standard) (hBehind : BehindPrefix front c back)
    {address : Address} (hDecode : decode tables (replaced front c back) = .ok address) :
    (∃ other, decode tables (replaced front d back) = .ok other) ↔
    (Text.isWhitespace c = true ∧ Text.isWhitespace d = true) ∨ Text.isWhitespace c = false ∧
        Text.isWhitespace d = false ∧
        tables.charToLowercase c = tables.charToLowercase d := by
  rcases written_of_decode hStandard hDecode with ⟨digit, digits, hWritten⟩
  have hText :
      ∀ x,
      trimmedText (replaced front x back) = trimmed Text.isWhitespace (front ++ x :: back) := by
    intro x
    unfold trimmedText replaced
    rw [String.toList_ofList]
  -- a character inside the payload is a symbol
  have hSymbol :
      trimmedText (replaced front c back) =
        front.dropWhile Text.isWhitespace ++ c :: back.rdropWhile Text.isWhitespace →
      ∃ symbol, ReadsAs tables c symbol := by
    intro hInside
    have hReads := hWritten.reads
    rw [(@parts_inside tables front back c hBehind hInside).1] at hReads
    exact exists_of_forall₂ hReads (List.mem_append_right _ List.mem_cons_self)
  constructor
  · rintro ⟨other, hOther⟩
    rcases written_of_decode hStandard hOther with ⟨digit', digits', hWritten'⟩
    by_cases hPlain : BehindPrefix front d back
    · exact replaced_of_accepted hStandard hBehind hPlain hWritten hWritten'
    · exfalso
      unfold BehindPrefix at hBehind hPlain
      rw [not_or, not_not] at hPlain
      have hFree := hBehind.resolve_left hPlain.1
      have hColon : d = ':' := by
        rcases List.mem_append.mp hPlain.2 with hFront | hRest
        · exact absurd hFront hPlain.1
        · rcases List.mem_cons.mp hRest with hHere | hBack
          · exact hHere.symm
          · exfalso
            apply hFree
            exact List.mem_append_right _ (List.mem_cons_of_mem _ hBack)
      rw [hColon] at hWritten'
      exact colon_not_accepted hStandard hFree hWritten hWritten'
  · rintro (⟨hC, hD⟩ | ⟨hC, hD, hLower⟩)
    · refine ⟨address, decode_congr ?_ hDecode⟩
      unfold partsOf
      rw [trim_toList, trim_toList, hText, hText]
      rcases @trimmed_of_blank Char Text.isWhitespace front back with hAll | ⟨-, hRest⟩
        | ⟨-, hRest⟩
      · rcases hSymbol ((hText c).trans (hAll c)) with ⟨symbol, hReads⟩
        rw [(plain_of_readsAs hStandard hReads).1] at hC
        cases hC
      · rw [hRest c hC, hRest d hD]
      · rw [hRest c hC, hRest d hD]
    · have hInsideC := (hText c).trans (trimmed_cons hC front back)
      have hInsideD := (hText d).trans (trimmed_cons hD front back)
      have hSame : ∀ symbol, ReadsAs tables c symbol → ReadsAs tables d symbol := by
        intro symbol hReads
        exact readsAs_of_lower hStandard hReads.1 (hLower.symm.trans hReads.2.2)
      rcases hSymbol hInsideC with ⟨symbol, hReadsC⟩
      have hPlainD := plain_of_readsAs hStandard (hSame symbol hReadsC)
      have hBehind' : BehindPrefix front d back := by
        rcases hBehind with hMem | hFree
        · exact Or.inl hMem
        · right
          intro hMem
          apply hFree
          rcases List.mem_append.mp hMem with hFront | hRest
          · exact List.mem_append_left _ hFront
          · rcases List.mem_cons.mp hRest with hHere | hBack
            · exact absurd hHere.symm hPlainD.2
            · exact List.mem_append_right _ (List.mem_cons_of_mem _ hBack)
      have hPartsC := @parts_inside tables front back c hBehind hInsideC
      have hPartsD := @parts_inside tables front back d hBehind' hInsideD
      refine
        ⟨address, decode_of_written hStandard hDecode hWritten (hPartsD.2.trans hPartsC.2.symm) ?_⟩
      have hReads := hWritten.reads
      rw [hPartsC.1] at hReads
      rw [hPartsD.1]
      exact reads_replaced hReads hSame

end Replaced

/- A character of the alphabet, in either case. -/
def IsSymbol (c : Char) : Prop := c.toLower ∈ charset

theorem isSymbol_ascii (hSymbol : IsSymbol c) : c.toNat < 128 := by
  unfold IsSymbol at hSymbol
  have hAll : ∀ x ∈ charset, x.toNat < 128 := forall_of_all (by decide)
  by_contra hHigh
  have hSame : c.toLower = c := by
    unfold Char.toLower
    apply dif_neg
    rintro ⟨-, hUpper⟩
    apply hHigh
    exact lt_of_le_of_lt hUpper (by decide)
  rw [hSame] at hSymbol
  exact hHigh (hAll c hSymbol)

/-
  What is written as the payload of an address that is accepted is of the alphabet, exactly where
  it has no Kelvin sign in it.
-/
theorem written_symbols_iff (hStandard : tables.Standard)
    (hDecode : decode tables input = .ok address) :
    (∀ c ∈ payloadText (trimmedText input), IsSymbol c) ↔
    UnicodeTables.kelvinSign ∉ payloadText (trimmedText input) := by
  rcases written_of_decode hStandard hDecode with ⟨digit, digits, hWritten⟩
  constructor
  · intro hSymbols hKelvin
    exact absurd (isSymbol_ascii (hSymbols _ hKelvin)) (by decide)
  · intro hKelvin c hMem
    rcases exists_of_forall₂ hWritten.reads hMem with ⟨symbol, hReads⟩
    rcases char_of_readsAs hStandard hReads with ⟨-, hLower⟩ | ⟨rfl, -⟩
    · unfold IsSymbol
      rw [hLower]
      have hAll : ∀ low < 2 ^ 5, charOf (UInt8.ofNat low) ∈ charset := by decide
      have hHere := hAll symbol.toNat hReads.1
      rw [UInt8.ofNat_toNat] at hHere
      exact hHere
    · exact absurd hMem hKelvin

end Address

end OptnWallet
