import OptnWallet.Core.Multisig.Texts

/-
  The account paths that a user types: what is accepted, and that a path is read as it is
  displayed.

  Main declarations:
    * `parseAccountPath`
    * `IsAccountText`
    * `account_path_exact`
-/

namespace OptnWallet

open StagedUpdate

--- Parsing

def bip44Purpose : UInt32 := 44

def maxHardenedIndex : UInt32 := 0x80000000

def outsideRange (level : String) (value : UInt32) : CliError :=
  .usage
    (level ++ " " ++ toString value ++ " is outside the hardened range (0.." ++
      toString maxHardenedIndex ++ ")")

namespace AccountPath

def new (coinType account : UInt32) : Except CliError AccountPath :=
  if maxHardenedIndex ≤ coinType then .error (outsideRange "coin type" coinType)
  else if maxHardenedIndex ≤ account then .error (outsideRange "account" account)
  else .ok { coinType, account }

end AccountPath

def apostrophe : Char := Char.ofNat 0x27

/- The mark of a hardened level. -/
def stripHardened (level : List Char) : Option (List Char) :=
  (level.dropSuffix? [apostrophe]).or ((level.dropSuffix? ['h']).or (level.dropSuffix? ['H']))

def parseHardened (name : String) (level : List Char) : Except CliError UInt32 :=
  match stripHardened level with
  | none => .error
      (.usage (name ++ " level '" ++ String.ofList level ++ "' must be hardened — write it as " ++
          String.ofList level ++ "'"))
  | some digits =>
    match Multisig.parseUnsigned (2 ^ 32) digits with
    | none => .error (.usage (name ++ " level '" ++ String.ofList level ++ "' is not a number"))
    | some value => .ok (UInt32.ofNat value)

def stripRoot (trimmed : List Char) : List Char :=
  ((trimmed.dropPrefix? ['m', '/']).or (trimmed.dropPrefix? ['M', '/'])).getD trimmed

def parseLevels (trimmed : List Char) : List (List Char) → Except CliError AccountPath
  | [purpose, coinType, account] => do
      let purpose ← parseHardened "purpose" purpose
      if purpose ≠ bip44Purpose then
        .error
          (.usage ("purpose must be " ++ toString bip44Purpose ++
              "' — this wallet derives BIP44 P2PKH accounts"))
      else do
        let coinType ← parseHardened "coin type" coinType
        let account ← parseHardened "account" account
        AccountPath.new coinType account
  | _ => .error (.usage ("'" ++ String.ofList trimmed ++
          "' must have exactly three levels: m/44'/<coin>'/<account>'"))

def parseAccountPath (input : String) : Except CliError AccountPath :=
  let trimmed := (Text.trim input).toList
  if trimmed = [] then .error (.usage "give an account path such as m/44'/145'/0'")
  else parseLevels trimmed ((stripRoot trimmed).splitOn '/')

--- Levels

def hardenedMarks : List Char := [apostrophe, 'h', 'H']

/- A level: digits and the mark of a hardened one. -/
def IsLevel (text : List Char) (value : Nat) : Prop :=
  ∃ digits mark,
    text = digits ++ [mark] ∧ mark ∈ hardenedMarks ∧
      digits ≠ [] ∧
      (∀ c ∈ digits, c.isDigit = true) ∧
      Nat.ofDigitChars 10 digits 0 = value

/- The text of an account: the root, which may be left out, and three levels, the first of which is
   the purpose. -/
def IsAccountText (text : List Char) (path : AccountPath) : Prop :=
  ∃ root purpose coinType account,
    root ∈ [[], ['m', '/'], ['M', '/']] ∧
      text = root ++ (purpose ++ '/' :: (coinType ++ '/' :: account)) ∧
      IsLevel purpose 44 ∧
      IsLevel coinType path.coinType.toNat ∧
      IsLevel account path.account.toNat ∧
      path.coinType.toNat < 2 ^ 31 ∧
      path.account.toNat < 2 ^ 31

variable {text digits : List Char}

theorem dropSuffix_singleton {c : Char} :
    text.dropSuffix? [c] = some digits ↔ text = digits ++ [c] := by
  rw [List.dropSuffix?_eq_some_iff]
  constructor
  · rintro ⟨suffix, rfl, hSame⟩
    rw [beq_iff_eq] at hSame
    rw [hSame]
  · rintro rfl
    exact ⟨[c], rfl, beq_self_eq_true _⟩

/- There is one mark at most. -/
theorem stripHardened_eq_some {level : List Char} :
    stripHardened level = some digits ↔ ∃ mark ∈ hardenedMarks, level = digits ++ [mark] := by
  unfold stripHardened hardenedMarks
  constructor
  · intro hStrip
    rcases Option.or_eq_some_iff.mp hStrip with hFirst | ⟨-, hRest⟩
    · exact ⟨apostrophe, by simp, dropSuffix_singleton.mp hFirst⟩
    · rcases Option.or_eq_some_iff.mp hRest with hSmall | ⟨-, hLarge⟩
      · exact ⟨'h', by simp, dropSuffix_singleton.mp hSmall⟩
      · exact ⟨'H', by simp, dropSuffix_singleton.mp hLarge⟩
  · rintro ⟨mark, hMark, rfl⟩
    have hOther : ∀ other : Char, mark ≠ other → (digits ++ [mark]).dropSuffix? [other] = none := by
      intro other hNe
      rw [Option.eq_none_iff_forall_ne_some]
      intro found hFound
      rw [dropSuffix_singleton] at hFound
      have hLast := List.append_inj_right' hFound rfl
      exact hNe (List.head_eq_of_cons_eq hLast)
    have hSame : (digits ++ [mark]).dropSuffix? [mark] = some digits := dropSuffix_singleton.mpr rfl
    simp only [List.mem_cons, List.not_mem_nil, or_false] at hMark
    rcases hMark with rfl | rfl | rfl
    · rw [hSame]
      rfl
    · rw [hOther apostrophe (by decide), hSame]
      rfl
    · rw [hOther apostrophe (by decide), hOther 'h' (by decide), hSame]
      rfl

variable {value : Nat}

/- Digits that do not start with a plus sign. -/
theorem parseUnsigned_eq_some {bound : Nat} (hPlus : digits.head? ≠ some '+') :
    Multisig.parseUnsigned bound digits = some value ↔
    digits ≠ [] ∧ (∀ c ∈ digits, c.isDigit = true) ∧
      Nat.ofDigitChars 10 digits 0 = value ∧
      value < bound := by
  have hKept : digits.dropPrefix? ['+'] = none := by
    cases digits with
    | nil => rfl
    | cons c digits =>
      unfold List.dropPrefix?
      rw [if_neg]
      rw [beq_iff_eq]
      intro hSame
      exact hPlus (congrArg some hSame)
  unfold Multisig.parseUnsigned
  rw [hKept, Option.getD_none]
  dsimp only
  split_ifs with hBad hLt
  · constructor
    · intro hNone
      cases hNone
    · rintro ⟨hSome, hDigits, -⟩
      rcases hBad with hNil | hOther
      · exact absurd hNil hSome
      · rw [List.all_eq_true.mpr hDigits] at hOther
        cases hOther
  · rw [not_or, Bool.not_eq_false, List.all_eq_true] at hBad
    rw [Option.some.injEq]
    constructor
    · rintro rfl
      exact ⟨hBad.1, hBad.2, rfl, hLt⟩
    · rintro ⟨-, -, hValue, -⟩
      exact hValue
  · constructor
    · intro hNone
      cases hNone
    · rintro ⟨-, -, rfl, hBound⟩
      exact absurd hBound hLt

theorem parseHardened_eq_ok {name : String} {level : List Char} (hPlus : level.head? ≠ some '+')
    {value : UInt32} : parseHardened name level = .ok value ↔ IsLevel level value.toNat := by
  have hFront : ∀ digits, stripHardened level = some digits → digits.head? ≠ some '+' := by
    intro digits hStrip hHead
    rcases stripHardened_eq_some.mp hStrip with ⟨mark, -, rfl⟩
    rw [List.head?_append, hHead] at hPlus
    exact hPlus rfl
  constructor
  · intro hParse
    unfold parseHardened at hParse
    cases hStrip : stripHardened level with
    | none =>
      rw [hStrip] at hParse
      cases hParse
    | some digits =>
      rw [hStrip] at hParse
      dsimp only at hParse
      cases hNumber : Multisig.parseUnsigned (2 ^ 32) digits with
      | none =>
        rw [hNumber] at hParse
        cases hParse
      | some found =>
        rw [hNumber] at hParse
        cases hParse
        rcases (parseUnsigned_eq_some (hFront digits hStrip)).mp hNumber with
          ⟨hSome, hDigits, hValue, hLt⟩
        rcases stripHardened_eq_some.mp hStrip with ⟨mark, hMark, hLevel⟩
        refine ⟨digits, mark, hLevel, hMark, hSome, hDigits, ?_⟩
        rw [hValue]
        exact (UInt32.toNat_ofNat_of_lt' hLt).symm
  · rintro ⟨digits, mark, hLevel, hMark, hSome, hDigits, hValue⟩
    have hStrip : stripHardened level = some digits :=
      stripHardened_eq_some.mpr ⟨mark, hMark, hLevel⟩
    have hNumber : Multisig.parseUnsigned (2 ^ 32) digits = some value.toNat :=
      (parseUnsigned_eq_some (hFront digits hStrip)).mpr ⟨hSome, hDigits, hValue, value.toNat_lt⟩
    unfold parseHardened
    rw [hStrip]
    dsimp only
    rw [hNumber]
    dsimp only
    rw [UInt32.ofNat_toNat]

/- A level starts with a digit and holds no separator. -/
theorem IsLevel.chars (hLevel : IsLevel text value) :
    '/' ∉ text ∧ ∃ c rest, text = c :: rest ∧ c.isDigit = true := by
  rcases hLevel with ⟨digits, mark, rfl, hMark, hSome, hDigits, -⟩
  constructor
  · rw [List.mem_append, not_or, List.mem_singleton]
    constructor
    · intro hMem
      exact absurd (hDigits _ hMem) (by decide)
    · rintro rfl
      exact absurd hMark (by decide)
  · cases digits with
    | nil => exact absurd rfl hSome
    | cons c digits => exact ⟨c, digits ++ [mark], rfl, hDigits c (by simp)⟩

theorem IsLevel.head_ne (hLevel : IsLevel text value) {other : Char}
    (hOther : other.isDigit = false) : text.head? ≠ some other := by
  rcases hLevel.chars.2 with ⟨c, rest, rfl, hDigit⟩
  intro hHead
  cases hHead
  rw [hDigit] at hOther
  cases hOther

--- Paths

/- No level of the text starts with a plus sign. -/
def NoPlus (text : List Char) : Prop :=
  ∀ level ∈ (stripRoot text).splitOn '/', level.head? ≠ some '+'

variable {path : AccountPath}

theorem new_eq_ok {coinType account : UInt32} :
    AccountPath.new coinType account = .ok path ↔
    path.coinType = coinType ∧ path.account = account ∧
      path.coinType.toNat < 2 ^ 31 ∧
      path.account.toNat < 2 ^ 31 := by
  have hRange : ∀ value : UInt32, maxHardenedIndex ≤ value ↔ ¬ value.toNat < 2 ^ 31 := by
    intro value
    rw [UInt32.le_iff_toNat_le, not_lt]
    rfl
  rcases path with ⟨coinType', account'⟩
  unfold AccountPath.new
  split_ifs with hCoin hAccount
  · rw [hRange] at hCoin
    constructor
    · intro hNew
      cases hNew
    · rintro ⟨rfl, rfl, hLt, -⟩
      exact absurd hLt hCoin
  · rw [hRange] at hAccount
    constructor
    · intro hNew
      cases hNew
    · rintro ⟨rfl, rfl, -, hLt⟩
      exact absurd hLt hAccount
  · rw [hRange, not_not] at hCoin hAccount
    constructor
    · intro hNew
      cases hNew
      exact ⟨rfl, rfl, hCoin, hAccount⟩
    · rintro ⟨rfl, rfl, -, -⟩
      rfl

theorem parseLevels_eq_ok {trimmed : List Char} {levels : List (List Char)}
    (hPlus : ∀ level ∈ levels, level.head? ≠ some '+') :
    parseLevels trimmed levels = .ok path ↔
    ∃ purpose coinType account,
      levels = [purpose, coinType, account] ∧ IsLevel purpose 44 ∧
        IsLevel coinType path.coinType.toNat ∧
        IsLevel account path.account.toNat ∧
        path.coinType.toNat < 2 ^ 31 ∧
        path.account.toNat < 2 ^ 31 := by
  constructor
  · intro hParse
    unfold parseLevels at hParse
    split at hParse
    · rename_i purpose coinType account
      rcases bind_eq_ok_iff.mp hParse with ⟨first, hFirst, hRest⟩
      split at hRest
      · cases hRest
      · rename_i hPurpose
        rw [not_not] at hPurpose
        rcases bind_eq_ok_iff.mp hRest with ⟨second, hSecond, hRest⟩
        rcases bind_eq_ok_iff.mp hRest with ⟨third, hThird, hNew⟩
        rcases new_eq_ok.mp hNew with ⟨rfl, rfl, hCoinLt, hAccountLt⟩
        rw [parseHardened_eq_ok (hPlus _ (by simp))] at hFirst hSecond hThird
        rw [hPurpose] at hFirst
        exact ⟨purpose, coinType, account, rfl, hFirst, hSecond, hThird, hCoinLt, hAccountLt⟩
    · cases hParse
  · rintro ⟨purpose, coinType, account, rfl, hPurpose, hCoin, hAccount, hCoinLt, hAccountLt⟩
    have hFirst : parseHardened "purpose" purpose = .ok bip44Purpose :=
      (parseHardened_eq_ok (hPlus _ (by simp))).mpr hPurpose
    have hSecond :=
      (@parseHardened_eq_ok "coin type" coinType
        (hPlus _ (by simp)) path.coinType).mpr hCoin
    have hThird :=
      (@parseHardened_eq_ok "account" account
        (hPlus _ (by simp)) path.account).mpr hAccount
    unfold parseLevels
    dsimp only
    rw [bind_of_ok hFirst, if_neg (not_not.mpr rfl), bind_of_ok hSecond, bind_of_ok hThird]
    exact new_eq_ok.mpr ⟨rfl, rfl, hCoinLt, hAccountLt⟩

theorem stripRoot_spec (text : List Char) :
    ∃ root ∈ [[], ['m', '/'], ['M', '/']], text = root ++ stripRoot text := by
  unfold stripRoot
  cases hSmall : text.dropPrefix? ['m', '/'] with
  | some body =>
    rcases List.dropPrefix?_eq_some_iff.mp hSmall with ⟨root, rfl, hRoot⟩
    rw [beq_iff_eq] at hRoot
    subst hRoot
    exact ⟨['m', '/'], by simp, rfl⟩
  | none =>
    cases hLarge : text.dropPrefix? ['M', '/'] with
    | some body =>
      rcases List.dropPrefix?_eq_some_iff.mp hLarge with ⟨root, rfl, hRoot⟩
      rw [beq_iff_eq] at hRoot
      subst hRoot
      exact ⟨['M', '/'], by simp, rfl⟩
    | none => exact ⟨[], by simp, rfl⟩

/- What starts with a digit follows any root. -/
theorem stripRoot_append {root : List Char} (hRoot : root ∈ [[], ['m', '/'], ['M', '/']]) {c : Char}
    (hDigit : c.isDigit = true) (rest : List Char) : stripRoot (root ++ c :: rest) = c :: rest := by
  simp only [List.mem_cons, List.not_mem_nil, or_false] at hRoot
  have hOther : ∀ other : Char, other.isDigit = false → (c == other) = false := by
    intro other hOther
    rw [beq_eq_false_iff_ne]
    rintro rfl
    rw [hDigit] at hOther
    cases hOther
  unfold stripRoot
  rcases hRoot with rfl | rfl | rfl
  · simp [List.dropPrefix?, hOther 'm' (by decide), hOther 'M' (by decide)]
  · simp [List.dropPrefix?]
  · simp [List.dropPrefix?]

theorem splitOn_levels {purpose coinType account : List Char} (hPurpose : '/' ∉ purpose)
    (hCoin : '/' ∉ coinType) (hAccount : '/' ∉ account) :
    (purpose ++ '/' :: (coinType ++ '/' :: account)).splitOn '/' =
      [purpose, coinType, account] := by
  have hParts :
      List.intercalate ['/'] [purpose, coinType, account] =
        purpose ++ '/' :: (coinType ++ '/' :: account) := by
    simp [List.intercalate]
  rw [← hParts]
  apply List.splitOn_intercalate
  · intro level hMem
    simp only [List.mem_cons, List.not_mem_nil, or_false] at hMem
    rcases hMem with rfl | rfl | rfl
    · exact hPurpose
    · exact hCoin
    · exact hAccount
  · exact List.cons_ne_nil _ _

theorem IsAccountText.ne_nil (hText : IsAccountText text path) : text ≠ [] := by
  rcases hText with ⟨root, purpose, coinType, account, -, rfl, -⟩
  simp

/- The levels of an account's text. -/
theorem IsAccountText.levels (hText : IsAccountText text path) :
    ∃ purpose coinType account,
    (stripRoot text).splitOn '/' = [purpose, coinType, account] ∧ IsLevel purpose 44 ∧
      IsLevel coinType path.coinType.toNat ∧
      IsLevel account path.account.toNat ∧
      path.coinType.toNat < 2 ^ 31 ∧
      path.account.toNat < 2 ^ 31 := by
  rcases hText with
    ⟨root, purpose, coinType, account, hRoot, rfl, hPurpose, hCoin, hAccount, hRanges⟩
  rcases hPurpose.chars.2 with ⟨c, rest, hFirst, hDigit⟩
  have hBody :
      stripRoot (root ++ (purpose ++ '/' :: (coinType ++ '/' :: account))) =
        purpose ++ '/' :: (coinType ++ '/' :: account) := by
    rw [hFirst]
    exact stripRoot_append hRoot hDigit _
  refine ⟨purpose, coinType, account, ?_, hPurpose, hCoin, hAccount, hRanges⟩
  rw [hBody]
  exact splitOn_levels hPurpose.chars.1 hCoin.chars.1 hAccount.chars.1

/- Apart from levels that start with a plus sign, the accepted texts are those of accounts. -/
theorem parseAccountPath_eq_ok {input : String} (hPlus : NoPlus (Text.trim input).toList) :
    parseAccountPath input = .ok path ↔ IsAccountText (Text.trim input).toList path := by
  have hLevels :
      parseLevels (Text.trim input).toList ((stripRoot (Text.trim input).toList).splitOn '/') =
        .ok path ↔
      IsAccountText (Text.trim input).toList path := by
    rw [parseLevels_eq_ok hPlus]
    constructor
    · rintro ⟨purpose, coinType, account, hSplit, hRest⟩
      rcases stripRoot_spec (Text.trim input).toList with ⟨root, hRoot, hText⟩
      have hBody :
          List.intercalate ['/'] ((stripRoot (Text.trim input).toList).splitOn '/') =
            stripRoot (Text.trim input).toList :=
        List.intercalate_splitOn '/'
      rw [hSplit] at hBody
      refine ⟨root, purpose, coinType, account, hRoot, ?_, hRest⟩
      rw [← hBody] at hText
      rw [hText]
      simp [List.intercalate]
    · exact IsAccountText.levels
  unfold parseAccountPath
  dsimp only
  split_ifs with hEmpty
  · constructor
    · intro hParse
      cases hParse
    · intro hText
      exact absurd hEmpty hText.ne_nil
  · exact hLevels

/- What is accepted is in range, however it is written. -/
theorem parseAccountPath_range {input : String} (hParse : parseAccountPath input = .ok path) :
    path.coinType.toNat < 2 ^ 31 ∧ path.account.toNat < 2 ^ 31 := by
  unfold parseAccountPath at hParse
  dsimp only at hParse
  split_ifs at hParse
  unfold parseLevels at hParse
  split at hParse
  · rcases bind_eq_ok_iff.mp hParse with ⟨first, -, hRest⟩
    split at hRest
    · cases hRest
    · rcases bind_eq_ok_iff.mp hRest with ⟨second, -, hRest⟩
      rcases bind_eq_ok_iff.mp hRest with ⟨third, -, hNew⟩
      exact (new_eq_ok.mp hNew).2.2
  · cases hParse

--- Displays

theorem isLevel_toString (n : Nat) : IsLevel ((toString n).toList ++ [apostrophe]) n := by
  have hDigits : (toString n).toList = Nat.toDigits 10 n := Nat.toList_repr
  refine
    ⟨(toString n).toList, apostrophe, rfl, by simp [hardenedMarks], ?_,
      fun c hMem => Multisig.isDigit_of_mem_toString hMem, ?_⟩
  · rw [hDigits]
    exact Nat.toDigits_ne_nil
  · rw [hDigits]
    exact Nat.ofDigitChars_ten_toDigits

theorem accountPath_toList (path : AccountPath) :
    path.toString.toList = ['m', '/'] ++ (((toString 44).toList ++ [apostrophe]) ++ '/' ::
            (((toString path.coinType.toNat).toList ++ [apostrophe]) ++
              '/' :: ((toString path.account.toNat).toList ++ [apostrophe]))) := by
  have hFront :
      "m/44'/".toList = ['m', '/'] ++ (((toString 44).toList ++ [apostrophe]) ++ ['/']) := by
    decide
  have hMark : "'/".toList = [apostrophe, '/'] := by decide
  have hLast : "'".toList = [apostrophe] := by decide
  unfold AccountPath.toString
  rw [String.toList_append, String.toList_append, String.toList_append, String.toList_append,
    hFront, hMark, hLast]
  simp only [List.append_assoc, List.cons_append, List.nil_append]
  rfl

theorem isAccountText_toString (hCoin : path.coinType.toNat < 2 ^ 31)
    (hAccount : path.account.toNat < 2 ^ 31) : IsAccountText path.toString.toList path :=
  ⟨['m', '/'], _, _, _, by simp, accountPath_toList path,
    isLevel_toString 44, isLevel_toString _, isLevel_toString _, hCoin, hAccount⟩

/- What is displayed has no blanks around it. -/
theorem trim_toString (path : AccountPath) : Text.trim path.toString = path.toString := by
  have hShape : ∃ inner, path.toString.toList = 'm' :: (inner ++ [apostrophe]) := by
    refine ⟨['/'] ++ (toString 44).toList ++ [apostrophe, '/'] ++
        (toString path.coinType.toNat).toList ++ [apostrophe, '/'] ++
        (toString path.account.toNat).toList, ?_⟩
    rw [accountPath_toList path]
    simp
  rcases hShape with ⟨inner, hShape⟩
  have hEnds :
      Text.trim (String.ofList path.toString.toList) = String.ofList path.toString.toList := by
    rw [hShape]
    apply trim_of_all_ends
    · change (!Text.isWhitespace 'm') = true
      decide
    · rw [← List.cons_append, List.getLast?_concat]
      decide
  rw [String.ofList_toList] at hEnds
  exact hEnds

theorem IsAccountText.noPlus (hText : IsAccountText text path) : NoPlus text := by
  rcases hText.levels with ⟨purpose, coinType, account, hSplit, hPurpose, hCoin, hAccount, -⟩
  unfold NoPlus
  rw [hSplit]
  intro level hMem
  simp only [List.mem_cons, List.not_mem_nil, or_false] at hMem
  rcases hMem with rfl | rfl | rfl
  · exact hPurpose.head_ne (by decide)
  · exact hCoin.head_ne (by decide)
  · exact hAccount.head_ne (by decide)

/-
  The accepted texts, where no level starts with a plus sign, are a root that may be left out and
  three hardened levels; and every path that is accepted is read back from its display.
-/
theorem account_path_exact (input : String) :
    (NoPlus (Text.trim input).toList → ∀ path,
        parseAccountPath input = .ok path ↔ IsAccountText (Text.trim input).toList path) ∧
    ∀ path, parseAccountPath input = .ok path → parseAccountPath path.toString = .ok path := by
  constructor
  · intro hPlus path
    exact parseAccountPath_eq_ok hPlus
  · intro path hParse
    rcases parseAccountPath_range hParse with ⟨hCoin, hAccount⟩
    have hText := isAccountText_toString hCoin hAccount
    rw [parseAccountPath_eq_ok]
    · rw [trim_toString]
      exact hText
    · rw [trim_toString]
      exact hText.noPlus

theorem default_path_read_back :
    parseAccountPath (AccountPath.toString { coinType := 145, account := 0 }) =
      .ok { coinType := 145, account := 0 } :=
  (account_path_exact " M/44h/145h/0h ").2 _ (by decide)

/- Neither the root nor the usual mark is there. -/
theorem bare_path_accepted :
    parseAccountPath "44h/145h/3h" =
        .ok { coinType := 145, account := 3 } ∧
      "44h/145h/3h".toList.head? ≠ some 'm' := by
  decide

/- A plus sign passes for a part of the number. -/
example :
    parseAccountPath "m/44'/+145'/0'" =
      .ok { coinType := 145, account := 0 } := by
  decide

end OptnWallet
