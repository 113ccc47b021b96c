import OptnWallet.Core.Multisig.Encryption
import OptnWallet.Core.Tx.Layout

/-
  The record that a cosigner offers a key in: four lines and a signature over them.  The lines
  that are verified are rebuilt from what was read of them.

  Main declarations:
    * `Multisig.parseBsmsKeyRecord`
    * `BsmsKeyRecord.preimage` and `BsmsKeyRecord.verifySignature`
    * `Multisig.PlainlyWritten`
    * `Multisig.preimage_eq_sentLines_iff`
-/

--- Lines

namespace OptnWallet.Multisig

open StagedUpdate

/- The lines of a text, behind those of the current one.  A carriage return in front of a line feed
   ends a line too. -/
def linesFrom (current : List Char) : List Char → List (List Char)
  | [] => if current = [] then [] else [current]
  | c :: text =>
    if c = '\n' then (current.dropSuffix? ['\r']).getD current :: linesFrom [] text
    else linesFrom (current ++ [c]) text

/- `str::lines` -/
def lines (text : List Char) : List (List Char) := linesFrom [] text

--- Records

inductive BsmsSignature where
  | recoverable (bytes : Vector UInt8 65)
  | der (bytes : List UInt8)
deriving DecidableEq

structure BsmsKeyRecord where
  version : String
  token : String
  key : DescriptorKey
  description : String
  signature : BsmsSignature
deriving DecidableEq

def bsmsMaxDescriptionChars : Nat := 80

variable {κ : Type} (bip32 : Bip32 κ) (decodeBase64 : List Char → Option (List UInt8))

/- Base64 of 65 bytes, or else digits. -/
def parseBsmsSignature (text : List Char) : Except CliError BsmsSignature :=
  let recoverable :=
    (decodeBase64 text).bind
      (fun bytes =>
        if hLength : bytes.length = 65 then some (⟨bytes.toArray, hLength⟩ : Vector UInt8 65)
        else none)
  match recoverable, decodeHex text with
  | some bytes, _ => .ok (.recoverable bytes)
  | none, some (byte :: bytes) => .ok (.der (byte :: bytes))
  | none, _ => .error (.usage
        "that record's signature is neither a 65-byte base64 legacy signature nor DER hex, so nothing proves the sender holds the key they offered")

/- A branch is put behind the key, since the reader of keys needs one. -/
def parseBsmsKeyRecord (text : String) : Except CliError BsmsKeyRecord := do
  let all := lines (Text.trim text).toList
  let header ← orUsage all[0]? "that file is empty"
  let numbered ← orUsage ((trimChars header).dropPrefix? "BSMS ".toList)
      "that does not start with a BSMS version line, so it is not a key record"
  let version := trimChars numbered
  if version ≠ "1.0".toList then
    .error (.usage ("this reads BSMS 1.0 records; that one says " ++ String.ofList version))
  else
    let tokenLine ← orUsage all[1]? "that record has no token"
    let token := trimChars tokenLine
    if token = [] ∨ token.all isAsciiHexdigit = false then
      .error
        (.usage ("'" ++ String.ofList token ++
            "' is not a hex token; BSMS uses 00 for an unencrypted record"))
    else
      let descriptorLine ← orUsage all[2]? "that record has no key descriptor"
      let key ← parseDescriptorKey bip32 (trimChars descriptorLine ++ "/0/*".toList) 0
      let descriptionLine ← orUsage all[3]? "that record has no description line"
      let description := trimChars descriptionLine
      if bsmsMaxDescriptionChars < description.length then
        .error
          (.usage ("that record's description is " ++ toString description.length ++
              " characters; BSMS allows " ++ toString bsmsMaxDescriptionChars))
      else
        let signatureLine ← orUsage all[4]?
            "that record has no signature, so nothing proves the sender holds the key they offered"
        let signature ← parseBsmsSignature decodeBase64 (trimChars signatureLine)
        .ok
          { version := String.ofList version
            token := String.ofList token
            key := key.1
            description := String.ofList description
            signature }

namespace BsmsKeyRecord

/- The four lines that the signature covers. -/
def preimage (record : BsmsKeyRecord) : List Char :=
  "BSMS ".toList ++ record.version.toList ++ '\n' :: record.token.toList ++
    '\n' :: '[' :: record.key.masterFingerprint.toList ++
    '/' ::
      (record.key.accountPath.toList.dropPrefix? "m/".toList).getD record.key.accountPath.toList ++
    ']' :: record.key.accountXpub.toList ++
    '\n' :: record.description.toList

end BsmsKeyRecord

/- The text with its length, behind a fixed prefix. -/
def signedMessage (text : List Char) : List UInt8 :=
  [0x18] ++ Utf8.encode "Bitcoin Signed Message:\n".toList ++
    varint (UInt64.ofNat (Utf8.encode text).length) ++ Utf8.encode text

def messageDigest (sha256 : List UInt8 → Vector UInt8 32) (text : List Char) : Vector UInt8 32 :=
  sha256 (sha256 (signedMessage text)).toList

/- Keys and signatures of the curve, with what is said of bytes that are none. -/
structure EcdsaVerifier where
  Key : Type
  Signature : Type
  keyFromSec1 : Vector UInt8 33 → Except String Key
  signatureFromDer : List UInt8 → Except String Signature
  signatureFromSlice : List UInt8 → Except String Signature
  verifyPrehash : Key → Vector UInt8 32 → Signature → Bool

/- The signature that is read, where its header byte is one of a legacy signer. -/
def readSignature (verifier : EcdsaVerifier) : BsmsSignature → Except CliError verifier.Signature
  | .der bytes => (verifier.signatureFromDer bytes).mapError
      (fun e => .usage ("that record's signature is not valid DER: " ++ e))
  | .recoverable bytes =>
    if bytes[0] < 27 ∨ (34 : UInt8) < bytes[0] then .error
        (.usage ("that signature's header byte is " ++ toString bytes[0].toNat ++
            ", which no legacy signer produces"))
    else (verifier.signatureFromSlice (bytes.toList.drop 1)).mapError
        (fun e => .usage ("that record's signature is not a valid r,s pair: " ++ e))

/- Whether the signature of a record is one over the text. -/
def verifyText (verifier : EcdsaVerifier) (sha256 : List UInt8 → Vector UInt8 32)
    (record : BsmsKeyRecord) (text : List Char) : Except CliError Unit := do
  let account ← bip32.parseMultisigAccountXpub record.key.accountXpub
  let key ← (verifier.keyFromSec1 (bip32.toBytes account)).mapError
      (fun e => CliError.usage ("that record's key is not usable: " ++ e))
  let signature ← readSignature verifier record.signature
  if verifier.verifyPrehash key (messageDigest sha256 text) signature
  then .ok ()
  else
    .error
      (.usage
        "that key record's signature does not match the key it carries. Someone changed the record between the sender and here, and the key in it is not the one they signed for.")

namespace BsmsKeyRecord

def signingDigest (sha256 : List UInt8 → Vector UInt8 32) (record : BsmsKeyRecord) :
    Vector UInt8 32 := messageDigest sha256 record.preimage

def verifySignature (verifier : EcdsaVerifier) (sha256 : List UInt8 → Vector UInt8 32)
    (record : BsmsKeyRecord) : Except CliError Unit :=
  verifyText bip32 verifier sha256 record record.preimage

end BsmsKeyRecord

--- What Was Sent

/- The first four lines of a text, joined again. -/
def sentLines (text : String) : List Char :=
  ['\n'].intercalate ((lines (Text.trim text).toList).take 4)

/- The fingerprint of an origin in eight digits of the lower case. -/
def PlainOrigin (line : List Char) : Prop :=
  ∃ fingerprint rest,
    line = '[' :: fingerprint ++ '/' :: rest ∧ fingerprint.length = 8 ∧
      ∀ c ∈ fingerprint, c ∈ lowerHexDigits

/- A record without blanks around its lines, with its version and its fingerprint as they are
   written again. -/
structure PlainLines (header token descriptor description : List Char) : Prop where
  version : header = "BSMS 1.0".toList
  trimmed_token : trimChars token = token
  trimmed_descriptor : trimChars descriptor = descriptor
  origin : PlainOrigin descriptor
  trimmed_description : trimChars description = description

def PlainlyWritten (text : String) : Prop :=
  ∃ header token descriptor description rest,
    lines (Text.trim text).toList = header :: token :: descriptor :: description :: rest ∧
      PlainLines header token descriptor description

--- Read Keys

variable {bip32 decodeBase64}

theorem orUsage_eq_ok_iff {α : Type} {value : Option α} {message : String} {a : α} :
    orUsage value message = .ok a ↔ value = some a := by
  cases value with
  | none =>
    constructor
    · intro hOk
      cases hOk
    · intro hSome
      cases hSome
  | some other =>
    constructor
    · intro hOk
      cases hOk
      rfl
    · intro hSome
      cases hSome
      rfl

/- What a derivation of one branch is. -/
theorem derivation_of_parse {position : Nat} {derivation : List Char} {branches : List UInt32}
    (hParse : parseDerivation position derivation = .ok branches) :
    ∃ branch, derivation = branch ++ "/*".toList ∧ '/' ∉ branch := by
  unfold parseDerivation at hParse
  split at hParse
  · cases hParse
  · dsimp only at hParse
    split at hParse
    · cases hParse
    · rename_i hStar
      rw [not_not] at hStar
      cases hSplit : Cashaddr.splitOnce '/' derivation with
      | none =>
        rw [hSplit] at hStar
        cases hStar
      | some parts =>
        rw [hSplit, Option.getD_some] at hStar
        rcases Address.splitOnce_eq_some hSplit with ⟨hMem, hText⟩
        refine ⟨parts.1, ?_, hMem⟩
        rw [hText, hStar]
        rfl

/- What was read of a key behind which a branch was put. -/
structure ReadKey (line : List Char) (key : DescriptorKey) (fingerprint origin : List Char) :
    Prop where
  line : line = '[' :: fingerprint ++ '/' :: origin ++ ']' :: key.accountXpub.toList
  bare : '/' ∉ fingerprint
  isFingerprint : IsFingerprint (Text.trim (String.ofList fingerprint))
  normalized : key.masterFingerprint = toAsciiLowercase (Text.trim (String.ofList fingerprint))
  path : key.accountPath.toList = "m/".toList ++ origin

variable {first second : List Char}

/- The last of the slashes is where a branch starts. -/
theorem of_last_slash {branch other : List Char} (hBranch : '/' ∉ branch) (hOther : '/' ∉ other)
    (hSame : first ++ '/' :: branch = second ++ '/' :: other) :
    first = second ∧ branch = other := by
  have hFirst := rsplitOnce_append first hBranch
  have hSecond := rsplitOnce_append second hOther
  rw [hSame, hSecond] at hFirst
  cases hFirst
  exact ⟨rfl, rfl⟩

variable {line : List Char}

theorem readKey_of_parse {index : Nat} {parsed : DescriptorKey × List UInt32}
    (hParse : parseDescriptorKey bip32 (line ++ "/0/*".toList) index = .ok parsed) :
    ∃ fingerprint origin, ReadKey line parsed.1 fingerprint origin := by
  unfold parseDescriptorKey at hParse
  rcases bind_eq_ok_iff.mp hParse with ⟨rest, hRest, hParse⟩
  rcases bind_eq_ok_iff.mp hParse with ⟨split, hSplit, hParse⟩
  rcases bind_eq_ok_iff.mp hParse with ⟨origin, hOrigin, hParse⟩
  rcases bind_eq_ok_iff.mp hParse with ⟨normalized, hNormalized, hParse⟩
  rcases bind_eq_ok_iff.mp hParse with ⟨fingerprint, hFingerprint, hParse⟩
  rcases bind_eq_ok_iff.mp hParse with ⟨key, hKey, hParse⟩
  rcases bind_eq_ok_iff.mp hParse with ⟨branches, hBranches, hParse⟩
  rcases bind_eq_ok_iff.mp hParse with ⟨_, -, hSame⟩
  cases hSame
  rw [orUsage_eq_ok_iff] at hRest hSplit hOrigin hFingerprint hKey
  rcases List.dropPrefix?_eq_some_iff.mp hRest with ⟨bracket, hPart, hBracket⟩
  rw [eq_of_beq hBracket] at hPart
  rcases Address.splitOnce_eq_some hSplit with ⟨-, hInner⟩
  rcases Address.splitOnce_eq_some hOrigin with ⟨hBare, hOriginText⟩
  rcases Address.splitOnce_eq_some hKey with ⟨-, hKeyText⟩
  rcases derivation_of_parse hBranches with ⟨branch, hDerivation, hBranch⟩
  rw [hFingerprint] at hNormalized
  rcases normalizeMasterFingerprint_eq_some_iff.mp hNormalized with ⟨hIs, hLower⟩
  rw [hInner, hOriginText, hKeyText, hDerivation] at hPart
  refine ⟨origin.1, origin.2, ?_⟩
  constructor
  · have hWhole :
        (line ++ '/' :: "0".toList) ++ "/*".toList =
          ('[' :: origin.1 ++ '/' :: origin.2 ++ ']' :: key.1 ++ '/' :: branch) ++ "/*".toList := by
      simp only [List.append_assoc, List.cons_append] at hPart ⊢
      exact hPart
    have hFront := List.append_cancel_right hWhole
    rw [String.toList_ofList]
    exact (of_last_slash (by decide) hBranch hFront).1
  · exact hBare
  · exact hIs
  · exact hLower
  · rw [String.toList_ofList]

--- Read Records

/- By induction over the text, with any start of a line. -/
theorem newline_not_mem_linesFrom {current text : List Char} (hCurrent : '\n' ∉ current) :
    ∀ line ∈ linesFrom current text, '\n' ∉ line := by
  induction text generalizing current with
  | nil =>
    unfold linesFrom
    split
    · exact List.forall_mem_nil _
    · exact List.forall_mem_singleton.mpr hCurrent
  | cons c text ih =>
    unfold linesFrom
    split
    · rw [List.forall_mem_cons]
      constructor
      · cases hDrop : current.dropSuffix? ['\r'] with
        | none => exact hCurrent
        | some line =>
          rcases List.dropSuffix?_eq_some_iff.mp hDrop with ⟨suffix, hLine, -⟩
          rw [hLine] at hCurrent
          intro hMem
          exact hCurrent (List.mem_append_left _ hMem)
      · exact ih List.not_mem_nil
    · rename_i hOther
      apply ih
      rw [List.mem_append, not_or, List.mem_singleton]
      exact ⟨hCurrent, Ne.symm hOther⟩

theorem newline_not_mem {text line : List Char} (hMem : line ∈ lines text) : '\n' ∉ line :=
  newline_not_mem_linesFrom List.not_mem_nil line hMem

theorem newline_not_mem_trimChars (hLine : '\n' ∉ line) : '\n' ∉ trimChars line :=
  fun hMem => hLine ((isInfix_trimChars line).subset hMem)

theorem of_first_separator {separator : Char} {rest other : List Char} (hFirst : separator ∉ first)
    (hSecond : separator ∉ second)
    (hSame : first ++ separator :: rest = second ++ separator :: other) :
    first = second ∧ rest = other := by
  have hSplit := splitOnce_append hFirst rest
  rw [hSame, splitOnce_append hSecond other] at hSplit
  cases hSplit
  exact ⟨rfl, rfl⟩

/- The four lines of a record, and what is kept of each. -/
structure ReadRecord (record : BsmsKeyRecord) (token descriptor description : List Char) :
    Prop where
  version : record.version.toList = "1.0".toList
  token : record.token.toList = trimChars token
  key : ∃ fingerprint origin, ReadKey (trimChars descriptor) record.key fingerprint origin
  description : record.description.toList = trimChars description

theorem of_first_four {α : Type} {all : List α} {first second third fourth : α}
    (hFirst : all[0]? = some first) (hSecond : all[1]? = some second)
    (hThird : all[2]? = some third) (hFourth : all[3]? = some fourth) :
    all = first :: second :: third :: fourth :: all.drop 4 := by
  rcases all with _ | ⟨a, _ | ⟨b, _ | ⟨c, _ | ⟨d, rest⟩⟩⟩⟩
  · cases hFirst
  · cases hSecond
  · cases hThird
  · cases hFourth
  · cases hFirst
    cases hSecond
    cases hThird
    cases hFourth
    rfl

variable {text : String} {record : BsmsKeyRecord}

theorem record_of_parse (hParse : parseBsmsKeyRecord bip32 decodeBase64 text = .ok record) :
    ∃ header token descriptor description rest,
    lines (Text.trim text).toList = header :: token :: descriptor :: description :: rest ∧
      ReadRecord record token descriptor description := by
  unfold parseBsmsKeyRecord at hParse
  generalize lines (Text.trim text).toList = all at hParse ⊢
  rcases bind_eq_ok_iff.mp hParse with ⟨header, hHeader, hParse⟩
  rcases bind_eq_ok_iff.mp hParse with ⟨numbered, -, hParse⟩
  dsimp only at hParse
  split at hParse
  · cases hParse
  rename_i hVersion
  rw [not_not] at hVersion
  rcases bind_eq_ok_iff.mp hParse with ⟨token, hToken, hParse⟩
  split at hParse
  · cases hParse
  rcases bind_eq_ok_iff.mp hParse with ⟨descriptor, hDescriptor, hParse⟩
  rcases bind_eq_ok_iff.mp hParse with ⟨key, hKey, hParse⟩
  rcases bind_eq_ok_iff.mp hParse with ⟨description, hDescription, hParse⟩
  split at hParse
  · cases hParse
  rcases bind_eq_ok_iff.mp hParse with ⟨line, -, hParse⟩
  rcases bind_eq_ok_iff.mp hParse with ⟨signature, -, hSame⟩
  rw [← Except.ok.inj hSame]
  rw [orUsage_eq_ok_iff] at hHeader hToken hDescriptor hDescription
  refine ⟨header, token, descriptor, description, all.drop 4, ?_, ?_⟩
  · exact of_first_four hHeader hToken hDescriptor hDescription
  · constructor
    · rw [hVersion, String.toList_ofList]
    · rw [String.toList_ofList]
    · exact readKey_of_parse hKey
    · rw [String.toList_ofList]

--- Rebuilt Lines

/- The third line as it is written again. -/
def rebuiltKey (key : DescriptorKey) (origin : List Char) : List Char :=
  '[' :: key.masterFingerprint.toList ++ '/' :: origin ++ ']' :: key.accountXpub.toList

variable {token descriptor description fingerprint origin : List Char}

theorem preimage_of_read (hRecord : ReadRecord record token descriptor description)
    (hKey : ReadKey line record.key fingerprint origin) :
    record.preimage = "BSMS 1.0".toList ++ '\n' ::
          (trimChars token ++
            '\n' :: (rebuiltKey record.key origin ++ '\n' :: trimChars description)) := by
  have hPath :
      (record.key.accountPath.toList.dropPrefix? "m/".toList).getD record.key.accountPath.toList =
        origin := by
    have hDrop : record.key.accountPath.toList.dropPrefix? "m/".toList = some origin :=
      List.dropPrefix?_eq_some_iff.mpr ⟨"m/".toList, hKey.path, beq_self_eq_true _⟩
    rw [hDrop, Option.getD_some]
  unfold BsmsKeyRecord.preimage rebuiltKey
  rw [hPath, hRecord.version, hRecord.token, hRecord.description]
  have hHeader : "BSMS 1.0".toList = "BSMS ".toList ++ "1.0".toList := by
    decide
  rw [hHeader]
  simp only [List.append_assoc, List.cons_append]

theorem sentLines_of_lines {header : List Char} {rest : List (List Char)}
    (hLines : lines (Text.trim text).toList = header :: token :: descriptor :: description :: rest)
      :
    sentLines text = header ++ '\n' :: (token ++ '\n' :: (descriptor ++ '\n' :: description)) := by
  unfold sentLines
  rw [hLines]
  simp [List.intercalate]

variable {key : DescriptorKey}

/- A line break in the rebuilt line would be one in the line that was read. -/
theorem newline_not_mem_rebuiltKey (hLine : '\n' ∉ line)
    (hKey : ReadKey line key fingerprint origin) : '\n' ∉ rebuiltKey key origin := by
  rw [hKey.line] at hLine
  have hFingerprint : '\n' ∉ key.masterFingerprint.toList := by
    rw [hKey.normalized]
    intro hMem
    have hDigit := (of_isFingerprint hKey.isFingerprint).2 _ hMem
    exact absurd hDigit (by decide)
  unfold rebuiltKey
  simp only [List.mem_append, List.mem_cons, not_or] at hLine ⊢
  exact ⟨⟨⟨hLine.1.1.1, hFingerprint⟩, hLine.1.2⟩, hLine.2⟩

/- A fingerprint is no longer than what it was read from. -/
theorem length_masterFingerprint_le (hKey : ReadKey line key fingerprint origin) :
    key.masterFingerprint.toList.length ≤ fingerprint.length := by
  rw [hKey.normalized]
  unfold toAsciiLowercase
  rw [String.toList_ofList, List.length_map]
  exact (isInfix_trimChars fingerprint).length_le

/- Nothing that was trimmed comes back, so a line is rebuilt as it was sent only when nothing was.
   -/
theorem rebuiltKey_eq_iff (hKey : ReadKey (trimChars line) key fingerprint origin) :
    line = rebuiltKey key origin ↔ trimChars line = line ∧ PlainOrigin line := by
  constructor
  · intro hSame
    have hTrimmed : trimChars line = line := by
      apply (isInfix_trimChars line).eq_of_length_le
      have hLength := length_masterFingerprint_le hKey
      rw [hKey.line, hSame]
      unfold rebuiltKey
      simp only [List.length_append, List.length_cons]
      omega
    refine ⟨hTrimmed, key.masterFingerprint.toList, ?_⟩
    have hDigits := of_isFingerprint hKey.isFingerprint
    rw [← hKey.normalized] at hDigits
    refine ⟨origin ++ ']' :: key.accountXpub.toList, ?_, hDigits⟩
    rw [hSame]
    unfold rebuiltKey
    simp only [List.append_assoc, List.cons_append]
  · rintro ⟨hTrimmed, plain, rest, hLine, hLength, hDigits⟩
    have hSlash : '/' ∉ plain :=
      fun hMem => (of_mem_lowerHexDigits (hDigits _ hMem)).2.1 rfl
    have hRead := hKey.line
    rw [hTrimmed] at hRead
    have hSame :
        plain ++ '/' :: rest = fingerprint ++ '/' :: (origin ++ ']' :: key.accountXpub.toList) := by
      rw [hLine] at hRead
      simp only [List.append_assoc, List.cons_append] at hRead
      exact List.tail_eq_of_cons_eq hRead
    have hPlain := (of_first_separator hSlash hKey.bare hSame).1
    have hTrim : Text.trim (String.ofList plain) = String.ofList plain :=
      trim_of_forall (fun c hMem => (of_mem_lowerHexDigits (hDigits c hMem)).1)
    have hKept : key.masterFingerprint.toList = plain := by
      rw [hKey.normalized, ← hPlain, hTrim]
      unfold toAsciiLowercase
      rw [String.toList_ofList, String.toList_ofList]
      have hLower : ∀ c ∈ plain, c.toLower = id c :=
        fun c hMem => (of_mem_lowerHexDigits (hDigits c hMem)).2.2.2
      rw [List.map_congr_left hLower, List.map_id]
    rw [hRead]
    unfold rebuiltKey
    rw [hKept, ← hPlain]

--- Sent Lines

theorem preimage_eq_iff (hParse : parseBsmsKeyRecord bip32 decodeBase64 text = .ok record) :
    record.preimage = sentLines text ↔ PlainlyWritten text := by
  rcases record_of_parse hParse with ⟨header, token, descriptor, description, rest, hLines, hRecord⟩
  rcases hRecord.key with ⟨fingerprint, origin, hKey⟩
  have hFree : ∀ line ∈ [header, token, descriptor], '\n' ∉ line := by
    intro line hMem
    apply @newline_not_mem (Text.trim text).toList
    rw [hLines]
    exact List.mem_append_left (description :: rest) hMem
  rw [List.forall_mem_cons, List.forall_mem_cons, List.forall_mem_singleton] at hFree
  rcases hFree with ⟨hHeader, hToken, hDescriptor⟩
  have hRebuilt := newline_not_mem_rebuiltKey (newline_not_mem_trimChars hDescriptor) hKey
  rw [preimage_of_read hRecord hKey, sentLines_of_lines hLines]
  constructor
  · intro hSame
    rcases of_first_separator (by decide) hHeader hSame with ⟨hVersion, hSame⟩
    rcases of_first_separator (newline_not_mem_trimChars hToken) hToken hSame with
      ⟨hPlainToken, hSame⟩
    rcases of_first_separator hRebuilt hDescriptor hSame with ⟨hPlainKey, hPlainDescription⟩
    rcases (rebuiltKey_eq_iff hKey).mp hPlainKey.symm with ⟨hTrimmed, hOrigin⟩
    exact ⟨header, token, descriptor, description, rest, hLines, hVersion.symm, hPlainToken,
      hTrimmed, hOrigin, hPlainDescription⟩
  · rintro ⟨_, _, _, _, _, hSplit, hPlain⟩
    rw [hLines] at hSplit
    cases hSplit
    rw [← (rebuiltKey_eq_iff hKey).mpr ⟨hPlain.trimmed_descriptor, hPlain.origin⟩, hPlain.version,
      hPlain.trimmed_token, hPlain.trimmed_description]

/- The length in front of a text tells where it ends. -/
theorem signedMessage_inj (hSame : signedMessage first = signedMessage second) :
    first = second := by
  unfold signedMessage at hSame
  simp only [List.append_assoc] at hSame
  have hCounted := List.append_cancel_left (List.append_cancel_left hSame)
  have hReads := readsAs_minimalVarint (.usage "") (.usage "")
  have hCount := (hReads.unique rfl rfl hCounted).2
  rw [hCount] at hCounted
  exact Utf8.encode_inj (List.append_cancel_left hCounted)

theorem preimage_eq_sentLines_iff {text : String} {record : BsmsKeyRecord}
    (hParse : parseBsmsKeyRecord bip32 decodeBase64 text = .ok record) :
    (record.preimage = sentLines text ↔ PlainlyWritten text) ∧
    (PlainlyWritten text → (∀ verifier sha256,
              record.verifySignature bip32 verifier sha256 =
                verifyText bip32 verifier sha256 record (sentLines text)) ∧
          ∀ other otherRecord,
      parseBsmsKeyRecord bip32 decodeBase64 other = .ok otherRecord → PlainlyWritten other →
        sentLines other ≠ sentLines text →
        signedMessage otherRecord.preimage ≠ signedMessage record.preimage) := by
  have hIff := preimage_eq_iff hParse
  refine ⟨hIff, ?_⟩
  intro hPlain
  have hSent := hIff.mpr hPlain
  constructor
  · intro verifier sha256
    unfold BsmsKeyRecord.verifySignature
    rw [hSent]
  · intro other otherRecord hOther hOtherPlain hChanged hSame
    have hOtherSent := (preimage_eq_iff hOther).mpr hOtherPlain
    rw [hOtherSent, hSent] at hSame
    exact hChanged (signedMessage_inj hSame)

--- A Written Record

/- By induction over the rest of the line. -/
theorem linesFrom_append (hFree : '\n' ∉ line) (current rest : List Char) :
    linesFrom current (line ++ rest) = linesFrom (current ++ line) rest := by
  induction line generalizing current with
  | nil => rw [List.nil_append, List.append_nil]
  | cons c line ih =>
    rw [List.mem_cons, not_or] at hFree
    rw [List.cons_append, linesFrom, if_neg (Ne.symm hFree.1), ih hFree.2, List.append_assoc,
      List.singleton_append]

theorem lines_cons (hFree : '\n' ∉ line) (hPlain : '\r' ∉ line) (rest : List Char) :
    lines (line ++ '\n' :: rest) = line :: lines rest := by
  have hKept : line.dropSuffix? ['\r'] = none := by
    cases hDrop : line.dropSuffix? ['\r'] with
    | none => rfl
    | some front =>
      rcases List.dropSuffix?_eq_some_iff.mp hDrop with ⟨suffix, hLine, hSuffix⟩
      rw [eq_of_beq hSuffix] at hLine
      rw [hLine] at hPlain
      exact absurd (List.mem_append_right _ List.mem_cons_self) hPlain
  unfold lines
  rw [linesFrom_append hFree, List.nil_append, linesFrom, if_pos rfl, hKept, Option.getD_none]

theorem lines_last (hFree : '\n' ∉ line) (hSome : line ≠ []) : lines line = [line] := by
  unfold lines
  have hLast := linesFrom_append hFree [] []
  rw [List.append_nil, List.nil_append] at hLast
  rw [hLast, linesFrom, if_neg hSome]

/- What is accepted, from what is read of each line. -/
theorem parseBsmsKeyRecord_of_lines
    {rest : List (List Char)} {key : DescriptorKey × List UInt32} {signature : BsmsSignature}
    (hLines :
        lines (Text.trim text).toList =
          "BSMS 1.0".toList :: token :: descriptor :: description :: line :: rest)
    (hToken : ¬ (trimChars token = [] ∨ (trimChars token).all isAsciiHexdigit = false))
    (hKey : parseDescriptorKey bip32 (trimChars descriptor ++ "/0/*".toList) 0 = .ok key)
    (hDescription : (trimChars description).length ≤ bsmsMaxDescriptionChars)
    (hSignature : parseBsmsSignature decodeBase64 (trimChars line) = .ok signature) :
    parseBsmsKeyRecord bip32 decodeBase64 text = .ok
        { version := "1.0"
          token := String.ofList (trimChars token)
          key := key.1
          description := String.ofList (trimChars description)
          signature } := by
  have hNumbered :
      (trimChars "BSMS 1.0".toList).dropPrefix? "BSMS ".toList = some "1.0".toList := by
    decide +kernel
  have hVersion : trimChars "1.0".toList = "1.0".toList := by
    decide +kernel
  unfold parseBsmsKeyRecord
  rw [hLines]
  dsimp only [List.getElem?_cons_zero, List.getElem?_cons_succ]
  rw [orUsage_some_bind, hNumbered, orUsage_some_bind, hVersion, if_neg (not_not.mpr rfl),
    orUsage_some_bind, if_neg hToken, orUsage_some_bind, bind_of_ok hKey, orUsage_some_bind,
    if_neg (Nat.not_lt.mpr hDescription), orUsage_some_bind, bind_of_ok hSignature,
    String.ofList_toList]

/- A signer writes its fingerprint in either case. -/
def sampleFingerprint (upper : Bool) : List Char :=
  if upper then "1CF0BF7E".toList else "1cf0bf7e".toList

def sampleDescriptor (upper : Bool) : List Char :=
  ['['] ++
    ((sampleFingerprint upper ++ '/' :: "48'/0'/0'/2'".toList) ++ ']' :: (sampleXpub true).toList)

def sampleRecord (upper : Bool) : String :=
  String.ofList
    ("BSMS 1.0".toList ++ '\n' ::
        ("00".toList ++ '\n' ::
            (sampleDescriptor upper ++ '\n' :: ("Signer 1 key".toList ++ '\n' :: "304402".toList))))

/- What is read of it does not depend on the case. -/
def sampleKeyRecord : BsmsKeyRecord :=
  { version := "1.0"
    token := "00"
    key :=
      { masterFingerprint := "1cf0bf7e"
        accountPath := "m/48'/0'/0'/2'"
        accountXpub := sampleXpub true }
    description := "Signer 1 key"
    signature := .der [0x30, 0x44, 0x02] }

variable (upper : Bool)

theorem sampleDescriptor_plain : ∀ c ∈ sampleDescriptor upper, Text.isWhitespace c = false := by
  have hOrigin :
      ∀ upper,
        (['['] ++ (sampleFingerprint upper ++ '/' :: "48'/0'/0'/2']".toList)).all
          (fun c => !Text.isWhitespace c) = true := by
    decide +kernel
  intro c hMem
  have hSplit :
      c ∈ ['['] ++ (sampleFingerprint upper ++ '/' :: "48'/0'/0'/2']".toList) ∨
        c ∈ (sampleXpub true).toList := by
    have hClosed :
        "48'/0'/0'/2']".toList =
          "48'/0'/0'/2'".toList ++ [']'] := by
      decide
    unfold sampleDescriptor at hMem
    rw [hClosed]
    simpa [or_assoc] using hMem
  rcases hSplit with hMem | hMem
  · have hHere := List.all_eq_true.mp (hOrigin upper) c hMem
    rwa [Bool.not_eq_true'] at hHere
  · have hBase58 := (sampleXpub_base58 true).2 c hMem
    exact isWhitespace_of_isKeyChar (isKeyChar_of_isBase58 hBase58).1

theorem lines_sampleRecord :
    lines (Text.trim (sampleRecord upper)).toList =
      ["BSMS 1.0".toList, "00".toList, sampleDescriptor upper, "Signer 1 key".toList,
        "304402".toList] := by
  have hPlain := sampleDescriptor_plain upper
  unfold sampleRecord
  rw [trim_of_ends, String.toList_ofList]
  · rw [lines_cons (by decide) (by decide), lines_cons (by decide) (by decide),
      lines_cons (not_mem_of_forall hPlain (by decide)) (not_mem_of_forall hPlain (by decide)),
      lines_cons (by decide) (by decide), lines_last (by decide) (by decide)]
  · intro c hHead
    cases hHead
    rfl
  · intro c hLast
    have hTwo : c = '2' := by simpa [List.getLast?_append, List.getLast?_cons] using hLast.symm
    rw [hTwo]
    rfl

theorem parse_sampleRecord :
    parseBsmsKeyRecord sampleBip32 (fun _ => none) (sampleRecord upper) = .ok sampleKeyRecord := by
  have hClose :
      ∀ upper,
        ']' ∉ sampleFingerprint upper ++ '/' :: "48'/0'/0'/2'".toList := by
    decide +kernel
  have hSlash : ∀ upper, '/' ∉ sampleFingerprint upper := by decide +kernel
  have hNormal :
      ∀ upper,
      normalizeMasterFingerprint (String.ofList (sampleFingerprint upper)) =
        .ok (some "1cf0bf7e") := by
    decide +kernel
  have hDerivation : parseDerivation 1 "0/*".toList = .ok [0] := by
    decide +kernel
  have hXpub := not_mem_of_forall (sampleXpub_base58 true).2 (by decide : ¬isBase58 '/' = true)
  have hExportable : IsExportable sampleBip32 (sampleCosigner true "1cf0bf7e") :=
    sampleCosigner_isExportable true (by decide +kernel) (by decide +kernel)
  rcases hExportable.account with ⟨account, hAccount⟩
  have hKey :=
    parseDescriptorKey_parts (hClose upper) (hSlash upper) hXpub (hNormal upper) hDerivation
      (by rw [String.ofList_toList]; exact hAccount)
  have hText :
      trimChars (sampleDescriptor upper) ++ "/0/*".toList = ['['] ++
          ((sampleFingerprint upper ++ '/' :: "48'/0'/0'/2'".toList) ++ ']' ::
            ((sampleXpub true).toList ++ '/' :: "0/*".toList)) := by
    rw [trimChars_of_plain (sampleDescriptor_plain upper)]
    unfold sampleDescriptor
    simp only [List.append_assoc, List.cons_append]
    rfl
  rw [← hText] at hKey
  rw [parseBsmsKeyRecord_of_lines (lines_sampleRecord upper)
    (by decide +kernel) hKey (by decide +kernel)
    (by decide +kernel :
      parseBsmsSignature (fun _ => none)
        (trimChars "304402".toList) =
          .ok (.der [0x30, 0x44, 0x02]))]
  rw [String.ofList_toList]
  decide +kernel

theorem sampleRecord_plain : PlainlyWritten (sampleRecord false) := by
  refine ⟨_, _, _, _, _, lines_sampleRecord false, rfl, ?_, ?_, ?_, ?_⟩
  · decide +kernel
  · exact trimChars_of_plain (sampleDescriptor_plain false)
  · refine
      ⟨"1cf0bf7e".toList,
        "48'/0'/0'/2'".toList ++ ']' :: (sampleXpub true).toList,
        ?_, by decide, forall_of_all (by decide)⟩
    unfold sampleDescriptor sampleFingerprint
    simp only [List.append_assoc, List.cons_append]
    rfl
  · decide +kernel

theorem sampleRecord_verified :
    sampleKeyRecord.preimage = sentLines (sampleRecord false) ∧
    ∀ verifier sha256,
      sampleKeyRecord.verifySignature sampleBip32 verifier sha256 =
        verifyText sampleBip32 verifier sha256 sampleKeyRecord
          (sentLines (sampleRecord false)) := by
  rcases preimage_eq_sentLines_iff (parse_sampleRecord false) with ⟨hIff, hVerified⟩
  exact ⟨hIff.mpr sampleRecord_plain, (hVerified sampleRecord_plain).1⟩

/- The signature over an upper case fingerprint is not the one that is verified. -/
theorem sampleRecord_rewritten :
    ∃ record,
    parseBsmsKeyRecord sampleBip32 (fun _ => none) (sampleRecord true) = .ok record ∧
      record.preimage ≠ sentLines (sampleRecord true) ∧
      signedMessage record.preimage ≠ signedMessage (sentLines (sampleRecord true)) := by
  have hRewritten : sampleKeyRecord.preimage ≠ sentLines (sampleRecord true) := by
    rw [(preimage_eq_iff (parse_sampleRecord false)).mpr sampleRecord_plain,
      sentLines_of_lines (lines_sampleRecord false), sentLines_of_lines (lines_sampleRecord true)]
    intro hSame
    have hFront := congrArg (List.take 15) hSame
    exact absurd hFront (by decide +kernel)
  exact ⟨sampleKeyRecord, parse_sampleRecord true, hRewritten,
    fun hSame => hRewritten (signedMessage_inj hSame)⟩

end OptnWallet.Multisig
