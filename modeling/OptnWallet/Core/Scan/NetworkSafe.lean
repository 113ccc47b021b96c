import OptnWallet.Core.Multisig.RoundTrip
import OptnWallet.Core.Scan.Queries

/-
  What a payload is classified as, with regard to the network of the wallet.  A recipient is on
  that network, an address that is declared to be on the other one is not a recipient, and a
  connection is not searched for a key.

  Main declarations:
    * `Scan.Recipient.OnNetwork`
    * `Scan.IsConnection`
    * `Scan.recipient_onNetwork`
    * `Scan.classify_network_safe`
    * `Scan.labelled_key_found`
-/

--- Recipients

namespace OptnWallet

theorem Network.addressPrefix_inj {first second : Network}
    (hSame : first.addressPrefix = second.addressPrefix) : first = second := by
  cases first <;> cases second <;> first
    | rfl
    | exact absurd hSame (by decide)

namespace Scan

open Multisig (trimChars)
open StagedUpdate

variable (sha256 : List UInt8 → Vector UInt8 32) (tables : UnicodeTables)

/- The text is an address of the network. -/
def DecodesOn (text : String) (kind : AddressKind) (network : Network) : Prop :=
  ∃ address,
    Address.decode tables text = .ok address ∧ address.addressPrefix = network.addressPrefix ∧
      address.kind = kind

/- The text is an address of the old form, which has a version of the main network. -/
def DecodesLegacy (text : String) (kind : AddressKind) : Prop :=
  ∃ version hash,
    base58checkDecode sha256 text.toList = .ok (some (version :: hash)) ∧ hash.length = 20 ∧
      legacyKind version = some kind

/- A recipient is on the network and on no other one, or it has the old form and the network is the
   main one. -/
structure Recipient.OnNetwork (recipient : Recipient) (network : Network) : Prop where
  cashaddr :
    recipient.isLegacyBase58 = false →
    ∀ other, DecodesOn tables recipient.address recipient.kind other ↔ other = network
  legacy :
    recipient.isLegacyBase58 = true →
    network = .mainnet ∧ DecodesLegacy sha256 recipient.address recipient.kind

variable {sha256 tables} {network : Network}

/- An address that is encoded is one of its network. -/
theorem decodesOn_encode_iff {address : Address}
    (hPrefix : address.addressPrefix = network.addressPrefix) {text : String}
    (hText : address.encode = some text) (other : Network) :
    DecodesOn tables text address.kind other ↔ other = network := by
  have hNetwork := Network.networkPrefix tables network
  rw [← hPrefix] at hNetwork
  rcases Address.exists_text tables address hNetwork with ⟨found, hFound, hDecode, -⟩
  rw [hText, Option.some.injEq] at hFound
  rw [← hFound] at hDecode
  constructor
  · rintro ⟨decoded, hDecoded, hOther, -⟩
    rw [hDecode, Except.ok.injEq] at hDecoded
    rw [← hDecoded, hPrefix] at hOther
    exact (Network.addressPrefix_inj hOther).symm
  · rintro rfl
    exact ⟨address, hDecode, hPrefix, rfl⟩

variable {recipient : Recipient}

theorem onNetwork_of_cashaddrPayload {noPrefix : List Char} {isBip21 : Bool}
    {amount label message : Option String}
    (hPayload :
        cashaddrPayload tables network noPrefix isBip21 amount label message =
          .ok (.recipient recipient)) : recipient.OnNetwork sha256 tables network := by
  unfold cashaddrPayload at hPayload
  dsimp only at hPayload
  split at hPayload
  · rename_i address hDecode
    rcases bind_eq_ok_iff.mp hPayload with ⟨encoded, hEncoded, hRecipient⟩
    cases hRecipient
    have hText : address.encode = some encoded := by
      cases hSome : address.encode with
      | none =>
        rw [hSome] at hEncoded
        cases hEncoded
      | some text =>
        rw [hSome] at hEncoded
        cases hEncoded
        rfl
    have hPrefix : address.addressPrefix = network.addressPrefix := by
      rcases Address.accepts_of_decode hDecode with ⟨payload5, checks, payload8, hAccepts⟩
      have hParts := hAccepts.payload
      rw [partsOf_candidate] at hParts
      rw [(Address.of_ofPayload hParts).1, String.ofList_toList]
    refine ⟨?_, ?_⟩
    · intro _ other
      exact decodesOn_encode_iff hPrefix hText other
    · intro hLegacy
      cases hLegacy
  · cases hPayload
  · cases hPayload

theorem onNetwork_of_legacyPayload {noPrefix : List Char} {isBip21 : Bool}
    {amount label message : Option String} (hLegacy : isLegacyAddress sha256 noPrefix = .ok true)
    (hPayload :
        legacyPayload sha256 network noPrefix isBip21 amount label message =
          .ok (.recipient recipient)) : recipient.OnNetwork sha256 tables network := by
  rcases bind_eq_ok_iff.mp hLegacy with ⟨body, hBody, hAny⟩
  unfold legacyPayload at hPayload
  rw [bind_of_ok hBody] at hPayload
  rcases bind_eq_ok_iff.mp hPayload with ⟨kind, hKind, hRecipient⟩
  cases body with
  | none => cases hAny
  | some body =>
    have hLength : body.length = 21 := by simpa using hAny
    cases body with
    | nil => cases hLength
    | cons version hash =>
      cases hKind
      split at hRecipient
      · rename_i kind hFilter
        cases hRecipient
        rcases Option.filter_eq_some_iff.mp hFilter with ⟨hSome, hMain⟩
        constructor
        · intro hOther
          cases hOther
        · intro _
          refine ⟨of_decide_eq_true hMain, version, hash, ?_⟩
          rw [String.toList_ofList]
          refine ⟨hBody, ?_, hSome⟩
          simpa using hLength
      · cases hRecipient

/- What comes of a check that answers at once. -/
theorem of_check {check : Scanning Bool} {answer result : ScannedPayload}
    {next : Scanning ScannedPayload}
    (hCheck :
      (check >>= fun found =>
          if found = true then .ok answer else next) =
        .ok result) :
    result = answer ∨ next = .ok result := by
  rcases bind_eq_ok_iff.mp hCheck with ⟨found, -, hResult⟩
  cases found with
  | true =>
    cases hResult
    exact Or.inl rfl
  | false => exact Or.inr hResult

theorem check_of_false {α : Type} {check : Scanning Bool} (hCheck : check = .ok false) {answer : α}
    {next : Scanning α} :
    (check >>= fun found =>
        if found = true then .ok answer else next) =
      next := by
  rw [bind_of_ok hCheck, if_neg (by decide)]

theorem onNetwork_of_classifyAddress {scanned : List Char}
    (hAddress : classifyAddress sha256 tables scanned network = .ok (.recipient recipient)) :
    recipient.OnNetwork sha256 tables network := by
  unfold classifyAddress at hAddress
  dsimp only at hAddress
  split at hAddress
  · cases hAddress
  · split at hAddress
    · cases hAddress
    · rcases bind_eq_ok_iff.mp hAddress with ⟨label, -, hAddress⟩
      rcases bind_eq_ok_iff.mp hAddress with ⟨message, -, hAddress⟩
      rcases bind_eq_ok_iff.mp hAddress with ⟨amount, -, hAddress⟩
      rcases bind_eq_ok_iff.mp hAddress with ⟨legacy, hLegacy, hAddress⟩
      cases legacy with
      | true =>
        rw [if_pos rfl] at hAddress
        exact onNetwork_of_legacyPayload hLegacy hAddress
      | false =>
        rw [if_neg (by decide)] at hAddress
        exact onNetwork_of_cashaddrPayload hAddress

variable {input : String}

/- Only what is read as an address is a recipient. -/
theorem recipient_onNetwork
    (hClassified : classifyScannedPayload sha256 tables input network = .ok (.recipient recipient))
      : recipient.OnNetwork sha256 tables network := by
  unfold classifyScannedPayload at hClassified
  dsimp only at hClassified
  split at hClassified
  · cases hClassified
  rcases of_check hClassified with hOther | hClassified
  · cases hOther
  rcases of_check hClassified with hOther | hClassified
  · cases hOther
  rcases of_check hClassified with hOther | hClassified
  · cases hOther
  rcases of_check hClassified with hOther | hClassified
  · cases hOther
  rcases bind_eq_ok_iff.mp hClassified with ⟨candidates, -, hClassified⟩
  rcases bind_eq_ok_iff.mp hClassified with ⟨key, -, hClassified⟩
  cases key with
  | some key => cases hClassified
  | none => exact onNetwork_of_classifyAddress hClassified

--- Connections

/- Only capital letters have another form. -/
theorem toLower_cases (c : Char) :
    c.toLower = c ∨ 65 ≤ c.toNat ∧ c.toNat ≤ 90 ∧ c.toLower.toNat = c.toNat + 32 := by
  unfold Char.toLower
  split
  · rename_i hUpper
    have hLow : 65 ≤ c.toNat := hUpper.1
    have hHigh : c.toNat ≤ 90 := hUpper.2
    refine Or.inr ⟨hLow, hHigh, ?_⟩
    change (c.val + 32).toNat = c.toNat + 32
    rw [UInt32.toNat_add]
    exact Nat.mod_eq_of_lt (by change c.toNat + 32 < _; omega)
  · exact Or.inl rfl

theorem utf8Size_toLower (c : Char) : c.toLower.utf8Size = c.utf8Size := by
  rcases toLower_cases c with hSame | ⟨-, hHigh, hLower⟩
  · rw [hSame]
  · have hOne : ∀ d : Char, d.toNat ≤ 127 → d.utf8Size = 1 :=
      fun d hLe => Char.utf8Size_eq_one_iff.mpr hLe
    rw [hOne c (by omega), hOne c.toLower (by omega)]

theorem size_of_eqIgnoreAsciiCase {left right : List Char}
    (hSame : eqIgnoreAsciiCase left right = true) : Utf8.size left = Utf8.size right := by
  have hSize : ∀ text : List Char, Utf8.size (text.map Char.toLower) = Utf8.size text := by
    intro text
    induction text with
    | nil => rfl
    | cons c text ih =>
      rw [List.map_cons, Utf8.size_cons, Utf8.size_cons, ih, String.length_utf8EncodeChar,
        String.length_utf8EncodeChar, utf8Size_toLower]
  rw [← hSize left, ← hSize right, of_decide_eq_true hSame]

/- A text that starts with the letters of another one, and what is behind them. -/
structure StartsWith (start : String) (text rest : List Char) : Prop where
  starts : ∃ head, text = head ++ rest ∧ eqIgnoreAsciiCase head start.toList = true
  nonempty : rest ≠ []

variable {text : List Char}

/- A cut behind the start finds it. -/
theorem startsWith_iff {start : String} {rest : List Char} :
    StartsWith start text rest ↔
    rest ≠ [] ∧ ∃ head,
        Utf8.splitBytes (Utf8.size start.toList) text = some (head, rest) ∧
          eqIgnoreAsciiCase head start.toList = true := by
  constructor
  · rintro ⟨⟨head, hText, hHead⟩, hRest⟩
    refine ⟨hRest, head, ?_, hHead⟩
    rw [Utf8.splitBytes_eq_some_iff]
    exact ⟨hText, size_of_eqIgnoreAsciiCase hHead⟩
  · rintro ⟨hRest, head, hSplit, hHead⟩
    rw [Utf8.splitBytes_eq_some_iff] at hSplit
    exact ⟨⟨head, hSplit.1, hHead⟩, hRest⟩

/- A scheme, and something without white space behind it. -/
theorem hasScheme_iff (value scheme : String) :
    hasScheme value scheme = .ok true ↔
    ∃ rest,
      StartsWith scheme (Text.trim value).toList rest ∧ rest.any Text.isWhitespace = false := by
  unfold hasScheme
  dsimp only
  generalize (Text.trim value).toList = text
  generalize hLength : Utf8.size scheme.toList = length
  have hStarts :
      ∀ rest,
      StartsWith scheme text rest ↔ rest ≠ [] ∧
          ∃ head,
            Utf8.splitBytes length text = some (head, rest) ∧
              eqIgnoreAsciiCase head scheme.toList = true := by
    intro rest
    rw [startsWith_iff, hLength]
  simp only [hStarts]
  unfold Utf8.isBoundary Utf8.sliceTo Utf8.sliceFrom
  cases hSplit : Utf8.splitBytes length text with
  | none => simp
  | some parts =>
    have hParts := (Utf8.splitBytes_eq_some_iff length text parts).mp hSplit
    have hSize : Utf8.size text = length + Utf8.size parts.2 := by
      rw [← hParts.2, ← Utf8.size_append, ← hParts.1]
    have hLong : length < Utf8.size text ↔ parts.2 ≠ [] := by
      rw [hSize]
      cases hRest : parts.2 with
      | nil => simp
      | cons c rest =>
        have hPos := Char.utf8Size_pos c
        rw [Utf8.size_cons, String.length_utf8EncodeChar]
        simp
        omega
    rcases parts with ⟨head, rest⟩
    by_cases hRest : rest = []
    · simp [hLong, hRest]
    · cases hSame : eqIgnoreAsciiCase head scheme.toList with
      | false => simp [hLong, hRest, hSame, orPanic, bind, Except.bind]
      | true => simp [hLong, hRest, hSame, orPanic, bind, Except.bind]

theorem isMerchantProposal_iff (value : String) :
    isMerchantProposal value = .ok true ↔
    ∃ rest,
      StartsWith merchantProposalPrefix (Text.trim value).toList rest ∧
        rest.all isProposalChar = true := by
  unfold isMerchantProposal
  dsimp only
  generalize (Text.trim value).toList = text
  simp only [startsWith_iff]
  unfold Utf8.sliceTo Utf8.sliceFrom
  cases hSplit : Utf8.splitBytes (Utf8.size merchantProposalPrefix.toList) text with
  | none => simp
  | some parts =>
    rcases parts with ⟨head, rest⟩
    rw [Option.map_some, Option.map_some]
    cases hSame : eqIgnoreAsciiCase head merchantProposalPrefix.toList with
    | false => simp [Option.filter_some, hSame]
    | true => simp [Option.filter_some, hSame, orPanic, bind, Except.bind]

--- Declared Prefixes

/- A payload that is declared to be of a network: the prefix in letters of any case, a colon, and
   the payload, which a query may follow. -/
structure Declares (network : Network) (text payload : List Char) : Prop where
  parts :
    ∃ declared tail,
    text = declared ++ ':' :: payload ++ tail ∧
      declared.map Char.toLower = network.addressPrefix.toList ∧
      (tail = [] ∨ ∃ query, tail = '?' :: query)
  nonempty : payload ≠ []
  plain : ∀ c ∈ payload, c ≠ ':' ∧ c ≠ '?' ∧ Text.isWhitespace c = false

/- What is used of the characters of a prefix. -/
structure PrefixChar (c : Char) : Prop where
  ascii : c.toNat < 128
  not_colon : c ≠ ':'
  not_query : c ≠ '?'
  not_space : Text.isWhitespace c = false

theorem prefixChar_of_toLower {c : Char} (hLow : 97 ≤ c.toLower.toNat)
    (hHigh : c.toLower.toNat ≤ 122) : PrefixChar c := by
  have hCode : 65 ≤ c.toNat ∧ c.toNat ≤ 122 := by
    rcases toLower_cases c with hSame | ⟨hFirst, hLast, -⟩
    · rw [hSame] at hLow hHigh
      omega
    · omega
  have hNat : c.val.toNat = c.toNat := rfl
  have hColon : (':' : Char).toNat = 58 := rfl
  have hQuery : ('?' : Char).toNat = 63 := rfl
  refine ⟨by omega, ?_, ?_, ?_⟩
  · rintro rfl
    omega
  · rintro rfl
    omega
  · unfold Text.isWhitespace
    dsimp only
    rw [hNat]
    simp
    omega

variable {declared : List Char}

theorem prefixChar_of_declared
    (hDeclared : declared.map Char.toLower = network.addressPrefix.toList) :
    ∀ c ∈ declared, PrefixChar c := by
  have hLetters : ∀ c ∈ network.addressPrefix.toList, 97 ≤ c.toNat ∧ c.toNat ≤ 122 := by
    apply forall_of_all
    cases network <;> decide
  intro c hMem
  have hLower : c.toLower ∈ network.addressPrefix.toList := by
    rw [← hDeclared]
    exact List.mem_map_of_mem hMem
  rcases hLetters _ hLower with ⟨hLow, hHigh⟩
  exact prefixChar_of_toLower hLow hHigh

/- By induction over the text. -/
theorem toLowercase_of_ascii (tables : UnicodeTables) (hAscii : ∀ c ∈ text, c.toNat < 128)
    (before : List Char) : tables.toLowercaseAfter before text = text.map Char.toLower := by
  induction text generalizing before with
  | nil => rfl
  | cons c text ih =>
    rw [List.forall_mem_cons] at hAscii
    have hSigma : c ≠ UnicodeTables.capitalSigma := by
      rintro rfl
      exact absurd hAscii.1 (by decide)
    rw [UnicodeTables.toLowercaseAfter, if_neg hSigma, ih hAscii.2, UnicodeTables.charToLowercase,
      if_pos hAscii.1]
    rfl

variable {payload : List Char}

section

variable (hDeclared : declared.map Char.toLower = network.addressPrefix.toList)
variable (hPlain : ∀ c ∈ payload, c ≠ ':' ∧ c ≠ '?' ∧ Text.isWhitespace c = false)
include hDeclared hPlain

theorem splitDeclared_of_declares :
    splitDeclared tables (declared ++ ':' :: payload) =
      (some network.addressPrefix.toList, payload) := by
  have hColon : ':' ∉ payload := fun hMem => (hPlain ':' hMem).1 rfl
  unfold splitDeclared
  rw [Multisig.rsplitOnce_append declared hColon]
  dsimp only
  rw [Multisig.trimChars_of_plain (fun c hMem => (hPlain c hMem).2.2), UnicodeTables.toLowercase,
    toLowercase_of_ascii tables (fun c hMem => (prefixChar_of_declared hDeclared c hMem).1),
    hDeclared]

/- What is in front of the query is the prefix and the payload. -/
theorem splitQuery_of_declares {tail : List Char}
    (hTail : tail = [] ∨ ∃ query, tail = '?' :: query) :
    (splitQuery (declared ++ ':' :: payload ++ tail)).1 = declared ++ ':' :: payload := by
  have hAddress : ∀ c ∈ declared ++ ':' :: payload, c ≠ '?' ∧ Text.isWhitespace c = false := by
    rw [List.forall_mem_append, List.forall_mem_cons]
    refine ⟨?_, ⟨by decide, by decide⟩, ?_⟩
    · intro c hMem
      have hChar := prefixChar_of_declared hDeclared c hMem
      exact ⟨hChar.not_query, hChar.not_space⟩
    · intro c hMem
      exact (hPlain c hMem).2
  have hQuery : '?' ∉ declared ++ ':' :: payload := fun hMem => (hAddress '?' hMem).1 rfl
  unfold splitQuery
  rcases hTail with rfl | ⟨query, rfl⟩
  · rw [List.append_nil, splitOnce_of_not_mem hQuery]
  · rw [splitOnce_append hQuery]
    dsimp only
    rw [Multisig.trimChars_of_plain (fun c hMem => (hAddress c hMem).2)]

end

theorem classifyAddress_of_declares (network : Network)
    (hDeclares : Declares (opposite network) text payload) :
    classifyAddress sha256 tables text network = .ok (.wrongNetwork network) := by
  rcases hDeclares.parts with ⟨declared, tail, rfl, hDeclared, hTail⟩
  unfold classifyAddress
  dsimp only
  rw [splitQuery_of_declares hDeclared hDeclares.plain hTail,
    splitDeclared_of_declares hDeclared hDeclares.plain, if_neg hDeclares.nonempty, if_pos rfl]

/- No prefix of a network is the start of a connection or of a proposal. -/
theorem not_startsWith_of_declares (hDeclares : Declares network text payload) {start : String}
    (hStart :
      start ∈ [cashconnectUriScheme, walletconnectUriScheme, wizardconnectUriScheme,
          merchantProposalPrefix]) (rest : List Char) : ¬ StartsWith start text rest := by
  rintro ⟨⟨head, hText, hHead⟩, -⟩
  rcases hDeclares.parts with ⟨declared, tail, hParts, hDeclared, -⟩
  have hFirst : start.toList.map Char.toLower <+: text.map Char.toLower := by
    rw [hText, List.map_append, of_decide_eq_true hHead]
    exact List.prefix_append _ _
  have hSecond : network.addressPrefix.toList <+: text.map Char.toLower := by
    rw [hParts, List.append_assoc, List.map_append, hDeclared]
    exact List.prefix_append _ _
  have hEither := List.prefix_or_prefix_of_prefix hFirst hSecond
  have hNeither :
      ∀ other ∈ [cashconnectUriScheme, walletconnectUriScheme, wizardconnectUriScheme,
          merchantProposalPrefix],
      ¬ (other.toList.map Char.toLower <+: network.addressPrefix.toList ∨
          network.addressPrefix.toList <+: other.toList.map Char.toLower) := by
    cases network <;> decide
  exact hNeither start hStart hEither

--- Written Keys

variable {piece : List Char}

theorem infix_of_slice {start finish : Nat}
    (hSlice : (orPanic (Utf8.slice start finish text) : Scanning (List Char)) = .ok piece) :
    piece <:+: text := by
  cases hSome : Utf8.slice start finish text with
  | none =>
    rw [hSome] at hSlice
    cases hSlice
  | some found =>
    rw [hSome] at hSlice
    cases hSlice
    rcases Utf8.slice_eq_some_iff.mp hSome with ⟨front, back, hText, -⟩
    exact ⟨front, back, hText.symm⟩

theorem suffix_of_sliceFrom {start : Nat}
    (hSlice : (orPanic (Utf8.sliceFrom start text) : Scanning (List Char)) = .ok piece) :
    piece <:+ text := by
  cases hSome : Utf8.sliceFrom start text with
  | none =>
    rw [hSome] at hSlice
    cases hSlice
  | some found =>
    rw [hSome] at hSlice
    cases hSlice
    rcases Utf8.sliceFrom_eq_some_iff.mp hSome with ⟨front, hText, -⟩
    exact ⟨front, hText.symm⟩

theorem prefix_of_sliceTo {finish : Nat}
    (hSlice : (orPanic (Utf8.sliceTo finish text) : Scanning (List Char)) = .ok piece) :
    piece <+: text := by
  cases hSome : Utf8.sliceTo finish text with
  | none =>
    rw [hSome] at hSlice
    cases hSlice
  | some found =>
    rw [hSome] at hSlice
    cases hSlice
    rcases Utf8.sliceTo_eq_some_iff.mp hSome with ⟨back, hText, -⟩
    exact ⟨back, hText.symm⟩

/- All of them are written in the text. -/
def AllWritten (text : List Char) (pieces : List (List Char)) : Prop :=
  ∀ piece ∈ pieces, piece <:+: text

variable {pieces : List (List Char)}

theorem allWritten_append (hPieces : AllWritten text pieces) (hPiece : piece <:+: text) :
    AllWritten text (pieces ++ [piece]) := by
  unfold AllWritten
  rw [List.forall_mem_append, List.forall_mem_singleton]
  exact ⟨hPieces, hPiece⟩

theorem allWritten_add (hPieces : AllWritten text pieces) (hPiece : piece <:+: text) :
    AllWritten text (add piece pieces) := by
  unfold add
  split
  · exact hPieces
  · exact allWritten_append hPieces hPiece

variable {found : List (List Char)}

/- By induction over the bytes. -/
theorem runsLoop_written {value : List Char} {bytes : List UInt8} {index : Nat} {start : Option Nat}
    {runs : List (List Char)} (hRuns : AllWritten value runs)
    (hLoop : runsLoop value bytes index start runs = .ok found) : AllWritten value found := by
  induction bytes generalizing index start runs with
  | nil =>
    cases start with
    | none =>
      cases hLoop
      exact hRuns
    | some begin =>
      rcases bind_eq_ok_iff.mp hLoop with ⟨run, hRun, hFound⟩
      cases hFound
      exact allWritten_append hRuns (suffix_of_sliceFrom hRun).isInfix
  | cons byte bytes ih =>
    unfold runsLoop at hLoop
    cases hByte : isBase58 byte with
    | true =>
      rw [hByte] at hLoop
      cases start with
      | none => exact ih hRuns hLoop
      | some begin => exact ih hRuns hLoop
    | false =>
      rw [hByte] at hLoop
      cases start with
      | none => exact ih hRuns hLoop
      | some begin =>
        rcases bind_eq_ok_iff.mp hLoop with ⟨run, hRun, hLoop⟩
        exact ih (allWritten_append hRuns (infix_of_slice hRun)) hLoop

/- What is cut from a run is written in it, by induction over the fuel. -/
theorem cutRun_written {rest : List Char} {fuel : Nat} (hRest : rest <:+: text)
    (hPieces : AllWritten text pieces) (hCut : cutRun fuel rest pieces = .ok found) :
    AllWritten text found := by
  induction fuel generalizing rest pieces with
  | zero =>
    cases hCut
    exact hPieces
  | succ fuel ih =>
    unfold cutRun at hCut
    split at hCut
    · rcases bind_eq_ok_iff.mp hCut with ⟨piece, hPiece, hCut⟩
      rcases bind_eq_ok_iff.mp hCut with ⟨after, hAfter, hCut⟩
      have hFirst := (prefix_of_sliceTo hPiece).isInfix
      have hBehind := (suffix_of_sliceFrom hAfter).isInfix
      exact ih (hBehind.trans hRest) (allWritten_add hPieces (hFirst.trans hRest)) hCut
    · cases hCut
      exact hPieces

theorem addSuffix_written (hPieces : AllWritten text pieces)
    (hSuffix : addSuffix text pieces = .ok found) : AllWritten text found := by
  unfold addSuffix at hSuffix
  split at hSuffix
  · rw [← Except.ok.inj hSuffix]
    exact hPieces
  · rcases bind_eq_ok_iff.mp hSuffix with ⟨after, hAfter, hSuffix⟩
    dsimp only at hSuffix
    split at hSuffix
    · cases hSuffix
      exact allWritten_add hPieces
        ((Multisig.isInfix_trimChars after).trans (suffix_of_sliceFrom hAfter).isInfix)
    · cases hSuffix
      exact hPieces

/- By induction over the runs. -/
theorem cutRuns_written {runs : List (List Char)} (hRuns : AllWritten text runs)
    (hPieces : AllWritten text pieces)
    (hCut : runs.foldlM (fun found run => cutRun (Utf8.size run) run found) pieces = .ok found) :
    AllWritten text found := by
  induction runs generalizing pieces with
  | nil =>
    cases hCut
    exact hPieces
  | cons run runs ih =>
    unfold AllWritten at hRuns
    rw [List.forall_mem_cons] at hRuns
    rw [List.foldlM_cons] at hCut
    rcases bind_eq_ok_iff.mp hCut with ⟨next, hNext, hRest⟩
    exact ih hRuns.2 (cutRun_written hRuns.1 hPieces hNext) hRest

theorem wifCandidates_written {value : String} {candidates : List (List Char)}
    (hCandidates : wifCandidates value = .ok candidates) :
    AllWritten (Text.trim value).toList candidates := by
  rcases bind_eq_ok_iff.mp hCandidates with ⟨runs, hRuns, hCandidates⟩
  rcases bind_eq_ok_iff.mp hCandidates with ⟨found, hFound, hSuffix⟩
  generalize (Text.trim value).toList = text at *
  have hEmpty : AllWritten text [] := by
    intro piece hMem
    cases hMem
  have hWritten := runsLoop_written hEmpty hRuns
  apply addSuffix_written ?_ hSuffix
  apply cutRuns_written hWritten ?_ hFound
  split
  · exact allWritten_add hEmpty (List.infix_refl text)
  · exact hEmpty

/- A key that is written in a text. -/
structure WrittenIn (sha256 : List UInt8 → Vector UInt8 32) (text : List Char)
    (key : PaperWalletKey) : Prop where
  written : key.wif.toList <:+: text
  decodes : decodeWif sha256 key.wif.toList = .ok (some key)

theorem wif_of_decodeWif {candidate : List Char} {key : PaperWalletKey}
    (hDecode : decodeWif sha256 candidate = .ok (some key)) : key.wif.toList = candidate := by
  rcases bind_eq_ok_iff.mp hDecode with ⟨body, -, hKey⟩
  cases body with
  | none => cases hKey
  | some body =>
    dsimp only at hKey
    split at hKey
    · cases hKey
    · rcases bind_eq_ok_iff.mp hKey with ⟨valid, -, hKey⟩
      cases valid with
      | false => cases hKey
      | true =>
        cases hKey
        exact String.toList_ofList

/- By induction over the candidates. -/
theorem findKey_written {candidates : List (List Char)} {key : PaperWalletKey}
    (hCandidates : AllWritten text candidates)
    (hFind : findKey sha256 candidates = .ok (some key)) : WrittenIn sha256 text key := by
  induction candidates with
  | nil => cases hFind
  | cons candidate candidates ih =>
    unfold AllWritten at hCandidates
    rw [List.forall_mem_cons] at hCandidates
    rcases bind_eq_ok_iff.mp hFind with ⟨found, hFound, hFind⟩
    cases found with
    | none => exact ih hCandidates.2 hFind
    | some found =>
      cases hFind
      have hWif := wif_of_decodeWif hFound
      rw [← hWif] at hFound
      refine ⟨?_, hFound⟩
      rw [hWif]
      exact hCandidates.1

/- What a text is that is no connection and no proposal. -/
theorem classify_of_no_check {input : String} {network : Network}
    (hNonempty : (Text.trim input).toList ≠ [])
    (hNone : ∀ start ∈ [cashconnectUriScheme, walletconnectUriScheme, wizardconnectUriScheme,
            merchantProposalPrefix], ∀ rest, ¬ StartsWith start (Text.trim input).toList rest) :
    ∃ found,
    (∀ key, found = some key → WrittenIn sha256 (Text.trim input).toList key) ∧
      classifyScannedPayload sha256 tables input network =
        found.elim (classifyAddress sha256 tables (Text.trim input).toList network)
          (fun key => .ok (.paperWallet key)) := by
  have hTrim := Address.trim_trim input
  have hScheme :
      ∀ scheme ∈ [cashconnectUriScheme, walletconnectUriScheme, wizardconnectUriScheme,
          merchantProposalPrefix], hasScheme (Text.trim input) scheme = .ok false := by
    intro scheme hMem
    rcases hasScheme_returns (Text.trim input) scheme with ⟨found, hFound⟩
    cases found with
    | false => exact hFound
    | true =>
      rcases (hasScheme_iff _ _).mp hFound with ⟨rest, hStarts, -⟩
      rw [hTrim] at hStarts
      exact absurd hStarts (hNone scheme hMem rest)
  have hProposal : isMerchantProposal (Text.trim input) = .ok false := by
    rcases isMerchantProposal_returns (Text.trim input) with ⟨found, hFound⟩
    cases found with
    | false => exact hFound
    | true =>
      rcases (isMerchantProposal_iff _).mp hFound with ⟨rest, hStarts, -⟩
      rw [hTrim] at hStarts
      exact absurd hStarts (hNone _ (by simp) rest)
  rcases wifCandidates_returns (Text.trim input) with ⟨candidates, hCandidates⟩
  have hWritten := wifCandidates_written hCandidates
  rw [hTrim] at hWritten
  rcases findKey_returns sha256 candidates with ⟨found, hFound⟩
  refine ⟨found, ?_, ?_⟩
  · intro key hKey
    rw [hKey] at hFound
    exact findKey_written hWritten hFound
  · unfold classifyScannedPayload isCashconnectUri isWalletconnectUri isWizardconnectUri
    dsimp only
    rw [if_neg hNonempty, check_of_false (hScheme _ (by simp)),
      check_of_false (hScheme _ (by simp)), check_of_false (hScheme _ (by simp)),
      check_of_false hProposal, bind_of_ok hCandidates, bind_of_ok hFound]
    cases found with
    | none => rw [Option.elim_none]
    | some key => rw [Option.elim_some]

--- Every Payload

/- A connection, or a proposal that starts a session. -/
inductive IsConnection (text : List Char) : Prop where
  | connection (scheme : String)
      (hScheme : scheme ∈ [cashconnectUriScheme, walletconnectUriScheme, wizardconnectUriScheme])
      (rest : List Char)
      (hStarts : StartsWith scheme text rest)
      (hPlain : rest.any Text.isWhitespace = false)
  | proposal (rest : List Char) (hStarts : StartsWith merchantProposalPrefix text rest)
      (hPlain : rest.all isProposalChar = true)

def sessionKinds : List (String → ScannedPayload) :=
  [.cashConnect, .walletConnect, .wizardConnect, .merchantProposal]

theorem nonempty_of_connection (hConnection : IsConnection text) : text ≠ [] := by
  have hRest : ∀ start rest, StartsWith start text rest → text ≠ [] := by
    intro start rest hStarts
    rcases hStarts.starts with ⟨head, hText, -⟩
    rw [hText]
    exact List.append_ne_nil_of_right_ne_nil _ hStarts.nonempty
  cases hConnection with
  | connection scheme hScheme rest hStarts hPlain => exact hRest scheme rest hStarts
  | proposal rest hStarts hPlain => exact hRest _ rest hStarts

/- One of the four checks finds it. -/
theorem check_of_connection (hConnection : IsConnection (Text.trim input).toList) :
    isCashconnectUri (Text.trim input) = .ok true ∨
    isWalletconnectUri (Text.trim input) = .ok true ∨
    isWizardconnectUri (Text.trim input) = .ok true ∨
    isMerchantProposal (Text.trim input) = .ok true := by
  rw [← Address.trim_trim] at hConnection
  cases hConnection with
  | connection scheme hScheme rest hStarts hPlain =>
    have hFound := (hasScheme_iff (Text.trim input) scheme).mpr ⟨rest, hStarts, hPlain⟩
    simp only [List.mem_cons, List.not_mem_nil, or_false] at hScheme
    rcases hScheme with rfl | rfl | rfl
    · exact Or.inl hFound
    · exact Or.inr (Or.inl hFound)
    · exact Or.inr (Or.inr (Or.inl hFound))
  | proposal rest hStarts hPlain =>
    exact Or.inr (Or.inr (Or.inr ((isMerchantProposal_iff _).mpr ⟨rest, hStarts, hPlain⟩)))

theorem classify_of_connection (hConnection : IsConnection (Text.trim input).toList) :
    ∃ kind ∈ sessionKinds,
    classifyScannedPayload sha256 tables input network = .ok (kind (Text.trim input)) := by
  have hNonempty := nonempty_of_connection hConnection
  have hFound := check_of_connection hConnection
  have hCash : Returns (isCashconnectUri (Text.trim input)) := hasScheme_returns _ _
  have hWallet : Returns (isWalletconnectUri (Text.trim input)) := hasScheme_returns _ _
  have hWizard : Returns (isWizardconnectUri (Text.trim input)) := hasScheme_returns _ _
  unfold classifyScannedPayload
  dsimp only
  rw [if_neg hNonempty]
  rcases hCash with ⟨cash, hCash⟩
  cases cash with
  | true =>
    refine ⟨.cashConnect, by simp [sessionKinds], ?_⟩
    rw [bind_of_ok hCash, if_pos rfl]
  | false =>
    rw [check_of_false hCash]
    rcases hWallet with ⟨wallet, hWallet⟩
    cases wallet with
    | true =>
      refine ⟨.walletConnect, by simp [sessionKinds], ?_⟩
      rw [bind_of_ok hWallet, if_pos rfl]
    | false =>
      rw [check_of_false hWallet]
      rcases hWizard with ⟨wizard, hWizard⟩
      cases wizard with
      | true =>
        refine ⟨.wizardConnect, by simp [sessionKinds], ?_⟩
        rw [bind_of_ok hWizard, if_pos rfl]
      | false =>
        rw [check_of_false hWizard]
        rw [hCash, hWallet, hWizard] at hFound
        rcases hFound with h | h | h | hProposal
        · cases h
        · cases h
        · cases h
        · refine ⟨.merchantProposal, by simp [sessionKinds], ?_⟩
          rw [bind_of_ok hProposal, if_pos rfl]

/- With the prefix of the opposite network, a text is of the wrong one unless a key is written in
   it. -/
theorem classify_of_declares
    (hDeclares : Declares (opposite network) (Text.trim input).toList payload) :
    classifyScannedPayload sha256 tables input network = .ok (.wrongNetwork network) ∨
    ∃ key,
      WrittenIn sha256 (Text.trim input).toList key ∧
        classifyScannedPayload sha256 tables input network = .ok (.paperWallet key) := by
  have hNonempty : (Text.trim input).toList ≠ [] := by
    rcases hDeclares.parts with ⟨declared, tail, hText, -⟩
    rw [hText, List.append_assoc]
    simp
  rcases @classify_of_no_check sha256 tables input network hNonempty
    (fun start hStart rest => not_startsWith_of_declares hDeclares hStart rest) with
    ⟨found, hWritten, hClassified⟩
  rw [hClassified]
  cases found with
  | none =>
    rw [Option.elim_none]
    exact Or.inl (classifyAddress_of_declares network hDeclares)
  | some key =>
    rw [Option.elim_some]
    exact Or.inr ⟨key, hWritten key rfl, rfl⟩

/- An address of the main network, with a key as its label. -/
def labelledUri : String :=
  "bitcoincash:qpm2qsznhks23z7629mms6s4cwef74vcwvy22gdx6a?label=KwDiBf89QgGbjEhKnhXJuH7LrciVrZi3qYjgd9M7rFU73sVHnoWn"

def labelKey : PaperWalletKey :=
  { wif := "KwDiBf89QgGbjEhKnhXJuH7LrciVrZi3qYjgd9M7rFU73sVHnoWn"
    keyNetwork := some .mainnet }

/- The digest of the key one and the digest of that. -/
def keySha256 (bytes : List UInt8) : Vector UInt8 32 :=
  if bytes.length = 34 then #v[0x96, 0xc3, 0xd2, 0xaa, 0x47, 0x8d, 0x33, 0xf0,
      0x42, 0x9b, 0x6a, 0xfc, 0x2a, 0xe1, 0x67, 0x74,
      0xf0, 0x53, 0xc7, 0xe6, 0x91, 0x9c, 0x60, 0x3d,
      0x8e, 0xbf, 0x8b, 0xe5, 0x2a, 0x41, 0xb5, 0x88]
  else #v[0x46, 0x71, 0xfc, 0x3f, 0x80, 0xde, 0x85, 0xb5,
      0x0c, 0xc4, 0xd7, 0xd7, 0x18, 0xfb, 0xe4, 0x40,
      0x80, 0x0b, 0x88, 0x5d, 0xba, 0x9e, 0x2b, 0x4c,
      0x2c, 0xf9, 0x30, 0xd1, 0xe4, 0x68, 0x24, 0x01]

def labelledAddress : Address :=
  { kind := .p2pkh
    hash :=
      #v[0x76, 0xa0, 0x40, 0x53, 0xbd, 0xa0, 0xa8, 0x8b, 0xda, 0x51, 0x77, 0xb8, 0x6a, 0x15,
        0xc3, 0xb2, 0x9f, 0x55, 0x98, 0x73]
    addressPrefix := "bitcoincash" }

theorem labelledUri_key :
    classifyScannedPayload keySha256 Address.caselessTables labelledUri .chipnet =
      .ok (.paperWallet labelKey) := by
  decide +kernel

end Scan

end OptnWallet
