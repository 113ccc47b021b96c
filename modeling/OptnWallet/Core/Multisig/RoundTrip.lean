import OptnWallet.Core.Multisig.Descriptors
import OptnWallet.Core.Multisig.Texts

/-
  A policy that is exported as descriptors is read back as the policy it was exported from, where
  it has no more cosigners than a script can encode and no key twice.

  Main declarations:
    * `Multisig.descriptorSet_eq_ok_iff`
    * `Multisig.parseDescriptor_body`
    * `Multisig.descriptorSet_restorable_iff`
-/

--- Lists Of Texts

namespace OptnWallet.Multisig

open StagedUpdate

variable {c : Char}

/- By induction over the parts. -/
theorem mem_intercalate {separator : List Char} {parts : List (List Char)}
    (hMem : c ∈ List.intercalate separator parts) : c ∈ separator ∨ ∃ part ∈ parts, c ∈ part := by
  induction parts with
  | nil =>
    rw [List.intercalate_nil] at hMem
    cases hMem
  | cons part parts ih =>
    cases parts with
    | nil =>
      rw [List.intercalate_singleton] at hMem
      exact Or.inr ⟨part, List.mem_cons_self, hMem⟩
    | cons next parts =>
      rw [List.intercalate_cons_cons, List.mem_append, List.mem_append] at hMem
      rcases hMem with (hMem | hMem) | hMem
      · exact Or.inr ⟨part, List.mem_cons_self, hMem⟩
      · exact Or.inl hMem
      · rcases ih hMem with hMem | ⟨other, hPart, hMem⟩
        · exact Or.inl hMem
        · exact Or.inr ⟨other, List.mem_cons_of_mem part hPart, hMem⟩

/- By induction over the parts. -/
theorem length_intercalate_le {separator : List Char} {parts : List (List Char)} {most : Nat}
    (hParts : ∀ part ∈ parts, part.length ≤ most) :
    (List.intercalate separator parts).length ≤ parts.length * (most + separator.length) := by
  induction parts with
  | nil =>
    rw [List.intercalate_nil]
    exact Nat.zero_le _
  | cons part parts ih =>
    rw [List.forall_mem_cons] at hParts
    have hRest := ih hParts.2
    rw [List.length_cons, Nat.add_mul, Nat.one_mul]
    cases parts with
    | nil =>
      rw [List.intercalate_singleton]
      omega
    | cons next parts =>
      rw [List.intercalate_cons_cons, List.length_append, List.length_append]
      omega

--- Keys In Order

variable {κ : Type} {bip32 : Bip32 κ} {required : UInt8} {cosigners : List Cosigner}
variable {account : AccountPath}

/- Fingerprints are equally long, so what a key is sorted by tells what it is. -/
theorem listed_eq_of_sortKey {first second : Cosigner} (hFirst : IsExportable bip32 first)
    (hSecond : IsExportable bip32 second)
    (hSame : (first.listed account).sortKey = (second.listed account).sortKey) :
    first.listed account = second.listed account := by
  have hText := congrArg String.toList hSame
  unfold Cosigner.listed at hText
  dsimp only at hText
  rw [String.toList_append, String.toList_append] at hText
  have hLength : first.fingerprint.toList.length = second.fingerprint.toList.length := by
    unfold Cosigner.fingerprint
    rw [(of_isFingerprint hFirst.fingerprint).1, (of_isFingerprint hSecond.fingerprint).1]
  rcases List.append_inj hText hLength with ⟨hPrint, hXpub⟩
  unfold Cosigner.listed
  rw [String.toList_inj.mp hPrint, String.toList_inj.mp hXpub]

section

variable (account : AccountPath) (cosigners : List Cosigner)

/- The cosigners in the order their keys are written in. -/
def inTextOrder : List Cosigner :=
  cosigners.mergeSort
    (fun left right => decide ((left.listed account).sortKey ≤ (right.listed account).sortKey))

theorem inTextOrder_perm :
    (inTextOrder account cosigners).Perm cosigners := List.mergeSort_perm cosigners _

theorem sortListedKeys_map :
    sortListedKeys (cosigners.map (Cosigner.listed account)) =
      (inTextOrder account cosigners).map (Cosigner.listed account) := by
  symm
  unfold sortListedKeys inTextOrder
  apply List.map_mergeSort
  intro left hLeft right hRight
  rfl

end

variable (hExportable : ∀ c ∈ cosigners, IsExportable bip32 c)

include hExportable in
theorem sortListedKeys_of_perm {others : List Cosigner} (hPerm : cosigners.Perm others) :
    sortListedKeys (cosigners.map (Cosigner.listed account)) =
      sortListedKeys (others.map (Cosigner.listed account)) := by
  apply KeySort.mergeSort_eq_of_perm (hPerm.map _)
  intro a hFirst b hSecond hSame
  rcases List.mem_map.mp hFirst with ⟨first, hLeft, rfl⟩
  rcases List.mem_map.mp hSecond with ⟨second, hRight, rfl⟩
  exact listed_eq_of_sortKey (hExportable first hLeft) (hExportable second hRight) hSame

--- Export

/- A policy that is exported. -/
structure Exports (bip32 : Bip32 κ) (required : UInt8) (cosigners : List Cosigner) : Prop where
  several : 2 ≤ cosigners.length
  threshold : ¬ (required = 0 ∨ cosigners.length < required.toNat)
  exportable : ∀ c ∈ cosigners, IsExportable bip32 c

theorem listedKeys_eq_ok_iff {keys : List ListedKey} :
    cosigners.zipIdx.mapM (fun entry => listedKey bip32 account entry.2 entry.1) = .ok keys ↔
    (∀ c ∈ cosigners, IsExportable bip32 c) ∧ keys = cosigners.map (Cosigner.listed account) := by
  have hEach :
      ∀ (entry : Cosigner × Nat) (key : ListedKey),
      listedKey bip32 account entry.2 entry.1 = .ok key ↔
        IsExportable bip32 entry.1 ∧ key = entry.1.listed account :=
    fun _ _ => listedKey_eq_ok_iff
  have hFst := List.zipIdx_map_fst 0 cosigners
  refine (mapM_eq_ok_iff hEach).trans ?_
  conv_rhs => rw [← hFst]
  rw [List.map_map]
  refine and_congr ?_ Iff.rfl
  constructor
  · intro hAll c hMem
    rcases List.mem_map.mp hMem with ⟨entry, hEntry, rfl⟩
    exact hAll entry hEntry
  · intro hAll entry hEntry
    exact hAll entry.1 (List.mem_map_of_mem hEntry)

variable {set : DescriptorSet}

theorem descriptorSet_eq_ok_iff :
    descriptorSet bip32 required cosigners account = .ok set ↔
    Exports bip32 required cosigners ∧
      withDescriptorChecksum
          (descriptorBody required (sortListedKeys (cosigners.map (Cosigner.listed account))) 0) =
        .ok set.receive ∧
      withDescriptorChecksum
          (descriptorBody required (sortListedKeys (cosigners.map (Cosigner.listed account))) 1) =
        .ok set.change := by
  unfold descriptorSet
  constructor
  · intro hSet
    split at hSet
    · cases hSet
    rename_i hSeveral
    split at hSet
    · cases hSet
    rename_i hThreshold
    rcases bind_eq_ok_iff.mp hSet with ⟨keys, hKeys, hSet⟩
    rcases listedKeys_eq_ok_iff.mp hKeys with ⟨hExportable, rfl⟩
    rcases bind_eq_ok_iff.mp hSet with ⟨receive, hReceive, hSet⟩
    rcases bind_eq_ok_iff.mp hSet with ⟨change, hChange, hSet⟩
    cases hSet
    exact ⟨⟨Nat.le_of_not_lt hSeveral, hThreshold, hExportable⟩, hReceive, hChange⟩
  · rintro ⟨hExports, hReceive, hChange⟩
    rw [if_neg (Nat.not_lt.mpr hExports.several), if_neg hExports.threshold,
      bind_of_ok (listedKeys_eq_ok_iff.mpr ⟨hExports.exportable, rfl⟩)]
    dsimp only
    rw [bind_of_ok hReceive, bind_of_ok hChange]

theorem Exports.of_perm {others : List Cosigner} (hExports : Exports bip32 required cosigners)
    (hPerm : cosigners.Perm others) : Exports bip32 required others where
  several := hPerm.length_eq ▸ hExports.several
  threshold := hPerm.length_eq ▸ hExports.threshold
  exportable := fun c hMem => hExports.exportable c (hPerm.mem_iff.mpr hMem)

/- The descriptors do not depend on the order of the cosigners. -/
theorem descriptorSet_of_perm {others : List Cosigner}
    (hSet : descriptorSet bip32 required cosigners account = .ok set)
    (hPerm : cosigners.Perm others) : descriptorSet bip32 required others account = .ok set := by
  rcases descriptorSet_eq_ok_iff.mp hSet with ⟨hExports, hReceive, hChange⟩
  rw [sortListedKeys_of_perm hExports.exportable hPerm] at hReceive hChange
  exact descriptorSet_eq_ok_iff.mpr ⟨hExports.of_perm hPerm, hReceive, hChange⟩

--- Bodies

/- The threshold and the keys, which commas separate. -/
def bodyParts (required : UInt8) (account : AccountPath) (branch : UInt32)
    (cosigners : List Cosigner) : List (List Char) :=
  (toString required).toList ::
    cosigners.map (fun cosigner => keyText branch (cosigner.listed account))

theorem descriptorBody_eq (hSome : cosigners ≠ []) (branch : UInt32) :
    descriptorBody required (cosigners.map (Cosigner.listed account)) branch = "sh(".toList ++
        ("sortedmulti(".toList ++
          List.intercalate [','] (bodyParts required account branch cosigners) ++
          [')']) ++ [')'] := by
  have hKeys :
      cosigners.map
          (fun cosigner => keyText branch (cosigner.listed account)) ≠ [] := by
    rw [ne_eq, List.map_eq_nil_iff]
    exact hSome
  have hOpen : "sh(sortedmulti(".toList = "sh(".toList ++ "sortedmulti(".toList := by
    decide +kernel
  have hClose : "))".toList = [')'] ++ [')'] := by
    decide +kernel
  have hTexts :
      (cosigners.map (Cosigner.listed account)).map
          (fun key => key.text ++ ['/'] ++ (toString branch).toList ++ ['/', '*']) =
        cosigners.map
          (fun cosigner => keyText branch (cosigner.listed account)) :=
    List.map_map
  unfold descriptorBody bodyParts
  dsimp only
  rw [List.intercalate_cons_of_ne_nil hKeys, hTexts, hOpen, hClose]
  simp only [List.append_assoc]

/- A character of a part: it is allowed, and separates no parts. -/
def IsPartChar (c : Char) : Prop := c ∈ descriptorInputCharset ∧ c ≠ ','

theorem isPartChar_of_isKeyChar (hChar : isKeyChar c = true) : IsPartChar c := by
  unfold isKeyChar at hChar
  simp only [Bool.and_eq_true, decide_eq_true_eq] at hChar
  unfold IsPartChar
  rw [descriptorInputCharset_eq]
  exact ⟨List.contains_iff_mem.mp hChar.1.1.1.1, hChar.1.1.1.2⟩

variable {cosigner : Cosigner} {branch : UInt32}

theorem isPartChar_of_mem_keyText (hExportable : IsExportable bip32 cosigner)
    (hBase58 : bip32.ReadsBase58) (hMem : c ∈ keyText branch (cosigner.listed account)) :
    IsPartChar c := by
  have hFixed :
      ['[', '/', ']', '*'].all (fun c => decide (c ∈ descriptorInputCharset ∧ c ≠ ',')) = true := by
    rw [descriptorInputCharset_eq]
    decide +kernel
  have hBracket : ∀ c ∈ ['[', '/', ']', '*'], IsPartChar c := by
    intro c hMem
    unfold IsPartChar
    have hChar := List.all_eq_true.mp hFixed c hMem
    exact of_decide_eq_true hChar
  unfold keyText Cosigner.listed at hMem
  rw [originPath_eq] at hMem
  simp only [List.mem_append] at hMem
  rcases hMem with (((((((hMem | hMem) | hMem) | hMem) | hMem) | hMem) | hMem) | hMem) | hMem
  · exact hBracket c (List.mem_of_mem_head? (by
      rw [List.mem_singleton.mp hMem]
      rfl))
  · exact isPartChar_of_isKeyChar
      (of_mem_lowerHexDigits ((of_isFingerprint hExportable.fingerprint).2 c hMem)).1
  · exact hBracket c (by simp [List.mem_singleton.mp hMem])
  · exact isPartChar_of_isKeyChar (isKeyChar_of_mem_pathLevels hMem)
  · exact hBracket c (by simp [List.mem_singleton.mp hMem])
  · exact isPartChar_of_isKeyChar (isKeyChar_of_isBase58 ((hExportable.base58 hBase58).2 c hMem)).1
  · exact hBracket c (by simp [List.mem_singleton.mp hMem])
  · exact isPartChar_of_isKeyChar (of_isDigit (isDigit_of_mem_toString hMem)).1
  · refine hBracket c ?_
    rcases List.mem_cons.mp hMem with rfl | hMem
    · decide
    · rw [List.mem_singleton.mp hMem]
      decide

section

variable (hExportable : ∀ c ∈ cosigners, IsExportable bip32 c) (hBase58 : bip32.ReadsBase58)
include hExportable hBase58

theorem isPartChar_of_mem_bodyParts {part : List Char}
    (hPart : part ∈ bodyParts required account branch cosigners) (hMem : c ∈ part) :
    IsPartChar c := by
  rcases List.mem_cons.mp hPart with rfl | hPart
  · exact isPartChar_of_isKeyChar (of_isDigit (isDigit_of_mem_toString hMem)).1
  · rcases List.mem_map.mp hPart with ⟨cosigner, hHere, rfl⟩
    exact isPartChar_of_mem_keyText (hExportable cosigner hHere) hBase58 hMem

theorem mem_charset_of_mem_body (hSome : cosigners ≠ [])
    (hMem : c ∈ descriptorBody required (cosigners.map (Cosigner.listed account)) branch) :
    c ∈ descriptorInputCharset := by
  have hFixed :
      ("sh(sortedmulti(),".toList).all
        (fun c => descriptorInputCharset.contains c) = true := by
    rw [descriptorInputCharset_eq]
    decide +kernel
  have hOf : ∀ c ∈ "sh(sortedmulti(),".toList, c ∈ descriptorInputCharset :=
    fun c hMem => List.contains_iff_mem.mp (List.all_eq_true.mp hFixed c hMem)
  rw [descriptorBody_eq hSome] at hMem
  simp only [List.mem_append] at hMem
  rcases hMem with (hMem | (hMem | hMem) | hMem) | hMem
  · exact hOf c (List.mem_of_mem_take (i := 3) hMem)
  · exact hOf c (List.mem_of_mem_drop (i := 3) (List.mem_of_mem_take (i := 12) hMem))
  · rcases mem_intercalate hMem with hMem | ⟨part, hPart, hMem⟩
    · exact hOf c (by rw [List.mem_singleton.mp hMem]; decide)
    · exact (isPartChar_of_mem_bodyParts hExportable hBase58 hPart hMem).1
  · exact hOf c (by rw [List.mem_singleton.mp hMem]; decide)
  · exact hOf c (by rw [List.mem_singleton.mp hMem]; decide)

end

theorem length_keyText_le (hExportable : IsExportable bip32 cosigner) (hBase58 : bip32.ReadsBase58)
    (branch : UInt32) : (keyText branch (cosigner.listed account)).length ≤ 163 := by
  have hPrint := (of_isFingerprint hExportable.fingerprint).1
  have hPath := length_pathLevels_le account
  have hXpub := (hExportable.base58 hBase58).1
  have hBranch := length_toString_le branch
  unfold keyText Cosigner.listed Cosigner.fingerprint
  rw [originPath_eq]
  simp only [List.length_append, List.length_cons, List.length_nil, hPrint]
  omega

/- What sixteen cosigners need stays far below the longest descriptor that is accepted. -/
theorem length_descriptorBody_le (hExportable : ∀ c ∈ cosigners, IsExportable bip32 c)
    (hBase58 : bip32.ReadsBase58) (hSome : cosigners ≠ []) (hFew : cosigners.length ≤ maxCosigners)
    (branch : UInt32) :
    (descriptorBody required (cosigners.map (Cosigner.listed account)) branch).length ≤ 5000 := by
  have hParts : ∀ part ∈ bodyParts required account branch cosigners, part.length ≤ 163 := by
    intro part hPart
    rcases List.mem_cons.mp hPart with rfl | hPart
    · have hDigits := length_toString_le required.toUInt32
      rw [show toString required.toUInt32 = toString required
        from congrArg toString (UInt8.toNat_toUInt32 required)]
        at hDigits
      omega
    · rcases List.mem_map.mp hPart with ⟨cosigner, hMem, rfl⟩
      exact length_keyText_le (hExportable cosigner hMem) hBase58 branch
  have hLength := @length_intercalate_le [','] _ _ hParts
  have hCount : (bodyParts required account branch cosigners).length ≤ 17 := by
    unfold bodyParts
    rw [List.length_cons, List.length_map]
    exact Nat.succ_le_succ hFew
  rw [List.length_singleton] at hLength
  have hMost := Nat.mul_le_mul_right (163 + 1) hCount
  have hFirst : "sh(".toList.length = 3 := rfl
  have hSecond : "sortedmulti(".toList.length = 12 := rfl
  rw [descriptorBody_eq hSome]
  simp only [List.length_append, List.length_singleton]
  omega

theorem exists_withDescriptorChecksum (hExports : Exports bip32 required cosigners)
    (hBase58 : bip32.ReadsBase58) (branch : UInt32) :
    ∃ descriptor,
    withDescriptorChecksum
        (descriptorBody required (cosigners.map (Cosigner.listed account)) branch) =
      .ok descriptor := by
  have hSome : cosigners ≠ [] := by
    rintro rfl
    cases hExports.several
  have hCharset :
      ∀ c ∈ descriptorBody required (cosigners.map (Cosigner.listed account)) branch,
      c ∈ descriptorInputCharset :=
    fun c hMem => mem_charset_of_mem_body hExports.exportable hBase58 hSome hMem
  rcases exists_descriptorChecksum hCharset with ⟨checksum, hChecksum, -, -⟩
  unfold withDescriptorChecksum
  rw [hChecksum]
  exact ⟨_, rfl⟩

/- Whatever meets the checks of the export is exported. -/
theorem exists_descriptorSet (hExports : Exports bip32 required cosigners)
    (hBase58 : bip32.ReadsBase58) (account : AccountPath) :
    ∃ set, descriptorSet bip32 required cosigners account = .ok set := by
  have hOrdered := hExports.of_perm (inTextOrder_perm account cosigners).symm
  rcases @exists_withDescriptorChecksum κ bip32 required _ account hOrdered hBase58 0 with
    ⟨receive, hReceive⟩
  rcases @exists_withDescriptorChecksum κ bip32 required _ account hOrdered hBase58 1 with
    ⟨change, hChange⟩
  rw [← sortListedKeys_map] at hReceive hChange
  exact ⟨{ receive, change }, descriptorSet_eq_ok_iff.mpr ⟨hExports, hReceive, hChange⟩⟩

--- Reading Back

theorem dropSuffix_append (text after : List Char) :
    (text ++ after).dropSuffix? after = some text :=
  List.dropSuffix?_eq_some_iff.mpr ⟨after, rfl, beq_self_eq_true _⟩

theorem stripAround_append (before text after : List Char) :
    stripAround before after (before ++ text ++ after) = some text := by
  unfold stripAround
  rw [List.append_assoc, dropPrefix_append]
  exact dropSuffix_append text after

theorem rsplitOnce_append {separator : Char} (before : List Char) {after : List Char}
    (hMem : separator ∉ after) :
    rsplitOnce separator (before ++ separator :: after) = some (before, after) := by
  have hReverse :
      (before ++ separator :: after).reverse = after.reverse ++ separator :: before.reverse := by
    rw [List.reverse_append, List.reverse_cons, List.append_assoc]
    rfl
  unfold rsplitOnce
  rw [hReverse, splitOnce_append (fun h => hMem (List.mem_reverse.mp h))]
  dsimp only [Option.map_some]
  rw [List.reverse_reverse, List.reverse_reverse]

theorem repeatsKey_iff {keys : List DescriptorKey} :
    repeatsKey keys = false ↔ (keys.map DescriptorKey.accountXpub).Nodup := by
  have hSort :=
    @KeySort.length_destutter_mergeSort_iff String String _ _ id Function.injective_id
      (keys.map DescriptorKey.accountXpub)
  unfold repeatsKey
  rw [decide_eq_false_iff_not, not_not]
  exact hSort

/- When a threshold and keys are accepted. -/
theorem checkPolicy_eq_ok_iff {keys : List DescriptorKey} :
    checkPolicy required keys = .ok () ↔
    2 ≤ keys.length ∧
      keys.length ≤ maxCosigners ∧
      ¬ (required = 0 ∨ keys.length < required.toNat) ∧
      (keys.map DescriptorKey.accountXpub).Nodup := by
  rw [← repeatsKey_iff]
  unfold checkPolicy
  constructor
  · intro hOk
    split at hOk
    · cases hOk
    rename_i hSeveral
    split at hOk
    · cases hOk
    rename_i hFew
    split at hOk
    · cases hOk
    rename_i hThreshold
    split at hOk
    · cases hOk
    rename_i hRepeats
    exact
      ⟨Nat.le_of_not_lt hSeveral, Nat.le_of_not_lt hFew, hThreshold, Bool.eq_false_iff.mpr hRepeats⟩
  · rintro ⟨hSeveral, hFew, hThreshold, hRepeats⟩
    rw [if_neg (Nat.not_lt.mpr hSeveral), if_neg (Nat.not_lt.mpr hFew), if_neg hThreshold,
      if_neg (by rw [hRepeats]; exact Bool.false_ne_true)]

/- Reading a key keeps the branches, once they are known. -/
theorem readKey_keyText (hExportable : IsExportable bip32 cosigner)
    (hBase58 : bip32.ReadsBase58) (branch : UInt32) (index : Nat) {read : KeysRead}
    (hBranches : read.branches = none ∨ read.branches = some [branch]) :
    readKey bip32 read (keyText branch (cosigner.listed account), index) = .ok
        { keys := read.keys ++ [cosigner.exported account]
          branches := some [branch] } := by
  have hTrim :
      trimChars (keyText branch (cosigner.listed account)) =
        keyText branch (cosigner.listed account) := by
    unfold trimChars
    rw [trim_of_ends, String.toList_ofList]
    · intro c hHead
      cases hHead
      decide
    · intro c hLast
      have hStar : (keyText branch (cosigner.listed account)).getLast? = some '*' := by
        unfold keyText
        exact List.getLast?_append_of_ne_nil _ (by decide)
      rw [hStar] at hLast
      cases hLast
      decide
  unfold readKey
  dsimp only
  rw [hTrim, bind_of_ok (parseDescriptorKey_keyText hExportable hBase58 account branch index)]
  unfold KeysRead.add
  rcases hBranches with hNone | hSome
  · rw [hNone]
  · rw [hSome]
    exact if_neg (not_not.mpr rfl)

/- By induction over the cosigners. -/
include hExportable in
theorem foldlM_readKey
    (hBase58 : bip32.ReadsBase58) (branch : UInt32) (index : Nat) {read : KeysRead}
    (hBranches : read.branches = some [branch]) :
    ((cosigners.map
        (fun cosigner =>
          keyText branch (cosigner.listed account))).zipIdx index).foldlM (readKey bip32) read =
      .ok
        { keys := read.keys ++ cosigners.map (Cosigner.exported account)
          branches := some [branch] } := by
  induction cosigners generalizing index read with
  | nil =>
    rw [List.map_nil, List.map_nil, List.append_nil, ← hBranches]
    rfl
  | cons cosigner cosigners ih =>
    rw [List.forall_mem_cons] at hExportable
    rw [List.map_cons, List.zipIdx_cons, List.foldlM_cons,
      bind_of_ok (readKey_keyText hExportable.1 hBase58 branch index (Or.inr hBranches)),
      ih hExportable.2 (index + 1) rfl, List.map_cons, List.append_assoc]
    rfl

variable {descriptor : String}

/- A descriptor that was written with its checksum. -/
theorem withDescriptorChecksum_eq_ok_iff {body : List Char} :
    withDescriptorChecksum body = .ok descriptor ↔
    ∃ checksum,
      descriptorChecksum body = some checksum ∧
        descriptor = String.ofList (body ++ '#' :: checksum) := by
  unfold withDescriptorChecksum
  cases descriptorChecksum body with
  | none =>
    constructor
    · intro hOk
      cases hOk
    · rintro ⟨checksum, hNone, -⟩
      cases hNone
  | some checksum =>
    constructor
    · intro hOk
      refine ⟨checksum, rfl, ?_⟩
      rw [← Except.ok.inj hOk, List.append_assoc]
      rfl
    · rintro ⟨other, hSame, rfl⟩
      cases hSame
      dsimp only
      rw [List.append_assoc, List.singleton_append]

/- The checksum that is read is the one that was written. -/
theorem checkedBody_append {body checksum : List Char}
    (hChecksum : descriptorChecksum body = some checksum) (hMem : '#' ∉ checksum) :
    checkedBody (body ++ '#' :: checksum) = .ok (body, true) := by
  unfold checkedBody
  rw [rsplitOnce_append body hMem]
  dsimp only
  rw [hChecksum]
  exact if_neg (not_not.mpr rfl)

/- What the keys of a descriptor are read as, with the threshold in front of them. -/
include hExportable in
theorem splitOn_bodyParts (hBase58 : bip32.ReadsBase58) (branch : UInt32) :
    (List.intercalate [','] (bodyParts required account branch cosigners)).splitOn ',' =
      bodyParts required account branch cosigners := by
  apply List.splitOn_intercalate
  · intro part hPart hComma
    exact (isPartChar_of_mem_bodyParts hExportable hBase58 hPart hComma).2 rfl
  · exact List.cons_ne_nil _ _

/- The threshold is read as it is written. -/
theorem parseUnsigned_required (required : UInt8) :
    parseUnsigned (2 ^ 8) (trimChars (toString required).toList) = some required.toNat := by
  have hDigits : ∀ c ∈ (toString required).toList, c.isDigit = true :=
    fun c hMem => isDigit_of_mem_toString hMem
  have hTrim : trimChars (toString required).toList = (toString required).toList := by
    unfold trimChars
    rw [trim_of_forall (fun c hMem => (of_isDigit (hDigits c hMem)).1), String.toList_ofList]
  rw [hTrim]
  exact parseUnsigned_toString required.toNat_lt

/- A descriptor starts with its function and ends in its checksum. -/
theorem trim_descriptor (hSome : cosigners ≠ []) (branch : UInt32) {checksum : List Char}
    (hLength : checksum.length = 8) (hChecksum : ∀ c ∈ checksum, isKeyChar c = true) :
    Text.trim
        (String.ofList
          (descriptorBody required (cosigners.map (Cosigner.listed account)) branch ++
            '#' :: checksum)) =
      String.ofList
        (descriptorBody required (cosigners.map (Cosigner.listed account)) branch ++
          '#' :: checksum) := by
  have hChars : checksum ≠ [] := by
    rintro rfl
    cases hLength
  apply trim_of_ends
  · intro c hHead
    rw [descriptorBody_eq hSome] at hHead
    cases hHead
    decide
  · intro c hLast
    rw [List.getLast?_append_of_ne_nil _ (List.cons_ne_nil _ _), List.getLast?_cons,
      Option.some.injEq] at hLast
    rw [List.getLast?_eq_some_getLast hChars] at hLast
    rw [← hLast]
    exact isWhitespace_of_isKeyChar (hChecksum _ (List.getLast_mem hChars))

theorem stripSh_body (hSome : cosigners ≠ []) (branch : UInt32) :
    stripSh (descriptorBody required (cosigners.map (Cosigner.listed account)) branch) = .ok
        ("sortedmulti(".toList ++
          List.intercalate [','] (bodyParts required account branch cosigners) ++
          [')']) := by
  unfold stripSh
  rw [descriptorBody_eq hSome, stripAround_append]

theorem stripSortedmulti_args (args : List Char) :
    stripSortedmulti ("sortedmulti(".toList ++ args ++ [')']) =
      .ok args := by
  unfold stripSortedmulti
  rw [stripAround_append]

/- The first key says which branches the others cover. -/
include hExportable in
theorem foldlM_readKey_all
    (hBase58 : bip32.ReadsBase58) (hSome : cosigners ≠ []) (branch : UInt32) :
    ((cosigners.map
        (fun cosigner => keyText branch (cosigner.listed account))).zipIdx
            0).foldlM (readKey bip32) { keys := [], branches := none } =
      .ok
        { keys := cosigners.map (Cosigner.exported account)
          branches := some [branch] } := by
  cases cosigners with
  | nil => exact absurd rfl hSome
  | cons cosigner cosigners =>
    rw [List.forall_mem_cons] at hExportable
    rw [List.map_cons, List.zipIdx_cons, List.foldlM_cons,
      bind_of_ok (readKey_keyText hExportable.1 hBase58 branch 0 (Or.inl rfl)),
      foldlM_readKey hExportable.2 hBase58 branch 1 rfl]
    rfl

section

variable (hExports : Exports bip32 required cosigners) (hBase58 : bip32.ReadsBase58)
variable (hFew : cosigners.length ≤ maxCosigners)
include hExports hBase58 hFew

/- What is written is read up to the checks of a policy. -/
theorem parseDescriptor_written
    (hWritten :
          withDescriptorChecksum
              (descriptorBody required (cosigners.map (Cosigner.listed account)) branch) =
            .ok descriptor) :
    parseDescriptor bip32 descriptor = (checkPolicy required
        (cosigners.map (Cosigner.exported account)) >>=
          fun _ => .ok
              { required
                keys := cosigners.map (Cosigner.exported account)
                branches := [branch]
                checksumVerified := true }) := by
  have hExportable := hExports.exportable
  have hSome : cosigners ≠ [] := by
    rintro rfl
    cases hExports.several
  have hCharset :
      ∀ c ∈ descriptorBody required (cosigners.map (Cosigner.listed account)) branch,
      c ∈ descriptorInputCharset :=
    fun c hMem => mem_charset_of_mem_body hExportable hBase58 hSome hMem
  rcases withDescriptorChecksum_eq_ok_iff.mp hWritten with ⟨checksum, hChecksum, rfl⟩
  rcases exists_descriptorChecksum hCharset with ⟨same, hSame, hLength, hPlain⟩
  rw [hChecksum] at hSame
  cases hSame
  have hHash : '#' ∉ checksum := not_mem_of_forall hPlain (by decide)
  have hSize :
      (String.ofList
            (descriptorBody required (cosigners.map (Cosigner.listed account)) branch ++
              '#' :: checksum)).utf8ByteSize ≤ maxDescriptorLen := by
    rw [utf8Len_of_charset]
    · have hBody :=
        @length_descriptorBody_le κ bip32 required cosigners account hExportable hBase58 hSome hFew
          branch
      rw [List.length_append, List.length_cons, hLength]
      unfold maxDescriptorLen
      omega
    · intro c hMem
      rcases List.mem_append.mp hMem with hMem | hMem
      · exact hCharset c hMem
      · rcases List.mem_cons.mp hMem with rfl | hMem
        · rw [descriptorInputCharset_eq]
          decide +kernel
        · exact (isPartChar_of_isKeyChar (hPlain c hMem)).1
  unfold parseDescriptor
  dsimp only
  rw [trim_descriptor hSome branch hLength hPlain, String.toList_ofList, if_neg (by simp),
    if_neg (Nat.not_lt.mpr hSize), bind_of_ok (checkedBody_append hChecksum hHash)]
  dsimp only
  rw [bind_of_ok (stripSh_body hSome branch), bind_of_ok (stripSortedmulti_args _),
    splitOn_bodyParts hExportable hBase58]
  unfold bodyParts
  rw [List.headD_cons, List.tail_cons, parseUnsigned_required, orUsage_some_bind,
    bind_of_ok (foldlM_readKey_all hExportable hBase58 hSome branch), UInt8.ofNat_toNat]
  rfl

theorem parseDescriptor_body (hDistinct : (cosigners.map Cosigner.xpub).Nodup)
    (hWritten :
          withDescriptorChecksum
              (descriptorBody required (cosigners.map (Cosigner.listed account)) branch) =
            .ok descriptor) :
    parseDescriptor bip32 descriptor = .ok
        { required
          keys := cosigners.map (Cosigner.exported account)
          branches := [branch]
          checksumVerified := true } := by
  have hPolicy : checkPolicy required (cosigners.map (Cosigner.exported account)) = .ok () := by
    rw [checkPolicy_eq_ok_iff, List.length_map, List.map_map]
    exact ⟨hExports.several, hFew, hExports.threshold, hDistinct⟩
  rw [parseDescriptor_written hExports hBase58 hFew hWritten]
  exact bind_of_ok hPolicy _

end

--- Addresses

/- A cosigner that was read back has the account of the one that was written. -/
theorem cosignerAccount_exported (hExportable : IsExportable bip32 cosigner)
    (hBase58 : bip32.ReadsBase58) (name : String) :
    cosignerAccount bip32
        { name, accountXpub := cosigner.xpub, masterFingerprint := some cosigner.fingerprint } =
      cosignerAccount bip32 cosigner := by
  have hNormal :
      normalizeMasterFingerprint cosigner.fingerprint = .ok (some cosigner.fingerprint) :=
    normalizeMasterFingerprint_toAsciiLowercase hExportable.fingerprint
  unfold cosignerAccount
  dsimp only [Option.getD_some]
  rw [bind_of_ok hNormal,
    bind_of_ok (normalizeMasterFingerprint_eq_some_iff.mpr ⟨hExportable.fingerprint, rfl⟩)]
  exact parseMultisigAccountXpub_trim (hExportable.trim_xpub hBase58)

/- By induction over the cosigners. -/
theorem mapM_cosignerAccount_exported (hExportable : ∀ c ∈ cosigners, IsExportable bip32 c)
    (hBase58 : bip32.ReadsBase58) (index : Nat) :
    (((cosigners.map
        (Cosigner.exported account)).zipIdx index).map
          (fun entry : DescriptorKey × Nat =>
            ({ name := "Cosigner " ++ toString (entry.2 + 1)
               accountXpub := entry.1.accountXpub
               masterFingerprint := some entry.1.masterFingerprint } :
              Cosigner))).mapM (cosignerAccount bip32) =
      cosigners.mapM (cosignerAccount bip32) := by
  induction cosigners generalizing index with
  | nil => rfl
  | cons cosigner cosigners ih =>
    rw [List.forall_mem_cons] at hExportable
    rw [List.map_cons, List.zipIdx_cons, List.map_cons, List.mapM_cons, List.mapM_cons,
      ih hExportable.2 (index + 1)]
    unfold Cosigner.exported
    dsimp only
    rw [cosignerAccount_exported hExportable.1 hBase58]

include hExportable in
theorem exists_mapM_cosignerAccount :
    ∃ accounts, cosigners.mapM (cosignerAccount bip32) = .ok accounts := by
  apply exists_mapM
  intro cosigner hMem
  rcases (hExportable cosigner hMem).account with ⟨xpub, hXpub⟩
  refine ⟨xpub, ?_⟩
  unfold cosignerAccount
  rw [bind_of_ok
    (normalizeMasterFingerprint_eq_some_iff.mpr ⟨(hExportable cosigner hMem).fingerprint, rfl⟩)]
  exact hXpub

--- Round Trip

/- What a descriptor says of the policy it was exported from. -/
structure ReadsAs (bip32 : Bip32 κ) (required : UInt8) (cosigners : List Cosigner)
    (account : AccountPath) (branch : UInt32) (parsed : ParsedDescriptor) : Prop where
  verified : parsed.checksumVerified = true
  threshold : parsed.required = required
  branches : parsed.branches = [branch]
  keys : parsed.keys.Perm (cosigners.map (Cosigner.exported account))
  addresses :
    ∀ network,
    (multisigPreview bip32 network parsed.required parsed.cosigners).toOption.map
        MultisigPreview.addresses =
      (multisigPreview bip32 network required cosigners).toOption.map MultisigPreview.addresses

/- A policy that can be restored from the descriptors it is exported as, whatever order its
   cosigners come in. -/
structure Restorable (bip32 : Bip32 κ) (required : UInt8) (cosigners : List Cosigner)
    (account : AccountPath) (set : DescriptorSet) : Prop where
  receive :
    ∃ parsed,
    parseDescriptor bip32 set.receive = .ok parsed ∧
      ReadsAs bip32 required cosigners account 0 parsed
  change : ∃ parsed, parseDescriptor bip32 set.change = .ok parsed ∧ ReadsAs bip32 required
    cosigners account 1 parsed
  unordered :
    ∀ others, cosigners.Perm others → descriptorSet bip32 required others account = .ok set

theorem exists_readsAs (hExports : Exports bip32 required cosigners) (hBase58 : bip32.ReadsBase58)
    (hFew : cosigners.length ≤ maxCosigners) (hDistinct : (cosigners.map Cosigner.xpub).Nodup)
    (hWritten :
        withDescriptorChecksum
            (descriptorBody required (sortListedKeys (cosigners.map (Cosigner.listed account)))
              branch) = .ok descriptor) :
    ∃ parsed,
    parseDescriptor bip32 descriptor = .ok parsed ∧
      ReadsAs bip32 required cosigners account branch parsed := by
  have hPerm := inTextOrder_perm account cosigners
  have hOrdered := hExports.of_perm hPerm.symm
  rw [sortListedKeys_map] at hWritten
  refine ⟨_,
    parseDescriptor_body hOrdered hBase58 (hPerm.length_eq ▸ hFew)
      ((hPerm.map _).nodup_iff.mpr hDistinct) hWritten, ⟨rfl, rfl, rfl, hPerm.map _, ?_⟩⟩
  intro network
  rcases exists_mapM_cosignerAccount hExports.exportable with ⟨accounts, hAccounts⟩
  rcases exists_mapM_of_perm hPerm.symm hAccounts with ⟨others, hOthers, hSame⟩
  have hRead := @mapM_cosignerAccount_exported κ bip32 _ account hOrdered.exportable hBase58 0
  rw [hOthers] at hRead
  rw [addresses_multisigPreview hAccounts, previewAddresses_of_perm hSame]
  exact addresses_multisigPreview hRead

/- What is read has passed the checks of a policy. -/
theorem checkPolicy_of_parseDescriptor {parsed : ParsedDescriptor}
    (hParsed : parseDescriptor bip32 descriptor = .ok parsed) :
    checkPolicy parsed.required parsed.keys = .ok () := by
  unfold parseDescriptor at hParsed
  dsimp only at hParsed
  split at hParsed
  · cases hParsed
  split at hParsed
  · cases hParsed
  rcases bind_eq_ok_iff.mp hParsed with ⟨_, -, hParsed⟩
  rcases bind_eq_ok_iff.mp hParsed with ⟨_, -, hParsed⟩
  rcases bind_eq_ok_iff.mp hParsed with ⟨_, -, hParsed⟩
  rcases bind_eq_ok_iff.mp hParsed with ⟨_, -, hParsed⟩
  rcases bind_eq_ok_iff.mp hParsed with ⟨read, -, hParsed⟩
  rcases bind_eq_ok_iff.mp hParsed with ⟨done, hPolicy, hParsed⟩
  cases hParsed
  exact hPolicy

theorem Restorable.checkPolicy (hRestorable : Restorable bip32 required cosigners account set) :
    cosigners.length ≤ maxCosigners ∧ (cosigners.map Cosigner.xpub).Nodup := by
  rcases hRestorable.receive with ⟨parsed, hParsed, hReads⟩
  have hPolicy := checkPolicy_of_parseDescriptor hParsed
  rw [checkPolicy_eq_ok_iff, hReads.keys.length_eq, List.length_map,
    (hReads.keys.map DescriptorKey.accountXpub).nodup_iff, List.map_map] at hPolicy
  exact ⟨hPolicy.2.1, hPolicy.2.2.2⟩

/-
  An exported policy can be restored exactly when it has no more cosigners than a script can
  encode, and no two of them share an account key.
-/
theorem descriptorSet_restorable_iff {κ : Type} {bip32 : Bip32 κ} (hBase58 : bip32.ReadsBase58)
    {required : UInt8} {cosigners : List Cosigner} {account : AccountPath} {set : DescriptorSet}
    (hSet : descriptorSet bip32 required cosigners account = .ok set) :
    Restorable bip32 required cosigners account set ↔
    cosigners.length ≤ maxCosigners ∧
      (cosigners.map (fun cosigner => Text.trim cosigner.accountXpub)).Nodup := by
  rcases descriptorSet_eq_ok_iff.mp hSet with ⟨hExports, hReceive, hChange⟩
  constructor
  · exact Restorable.checkPolicy
  · rintro ⟨hFew, hDistinct⟩
    exact
      { receive := exists_readsAs hExports hBase58 hFew hDistinct hReceive
        change := exists_readsAs hExports hBase58 hFew hDistinct hChange
        unordered := fun others hPerm => descriptorSet_of_perm hSet hPerm }

/- The account keys of two cosigners, and the keys below them that their first addresses need. -/
def sampleXpub (first : Bool) : String :=
  if first then
    "xpub6FL8FhxNNUVnG64YurPd16AfGyvFLhh7S2uSsDqR3Qfcm6o9jtcMYwh6DvmcBF9qozxNQmTCVvWtxLpKTnhVLN3Pgnu2D3pAoXYFgVyd8Yz"
  else
    "xpub6EebMbEps7ZcV3FYEnddRsvrFWDrt2tiPmCeM7pPXQEmphvq9ZfJ1LWFUDjf3vxCeBuPrfyGrMazWUsYsetrnHatQZVLJH7LsgCjtMqdzgj"

def sampleAccount (first : Bool) : Nat :=
  if first then 0x025fa5a6544e85c02a2c33f5090f573d9ba83ec54a852211d39f844f04b8e8b0a3
  else 0x033b21ec9687c39c7e39a4d53524f76ab5c8c4a9c3f3f10dd409970b7c2981c8d7

def sampleChildren : List ((Nat × UInt32) × Nat) :=
  [((sampleAccount true, 0), 0x03f104ed676e49375a4256702d4845ac1929f1f01492b85fdb28a4b5a70ac5c06c),
    ((0x03f104ed676e49375a4256702d4845ac1929f1f01492b85fdb28a4b5a70ac5c06c, 0),
      0x02056de48ecd7b3efe8578869087425ac6b105a4a9c96943abf7b48285e53ad776),
    ((sampleAccount false, 0),
      0x02f41f99a7500a0a87b20d6fc210f030c1d4a473defb98f0a3913cb8ac2d554fbc),
    ((0x02f41f99a7500a0a87b20d6fc210f030c1d4a473defb98f0a3913cb8ac2d554fbc, 0),
      0x0344c0632f4a3ebc4de9100df707530a37e6cf24ee0567d39aec98c276bfeaec52),
    ((sampleAccount true, 1), 0x0312f5613914d513a39d9350d212dc08bfc5c53b382e59064641865f000973b3dc),
    ((0x0312f5613914d513a39d9350d212dc08bfc5c53b382e59064641865f000973b3dc, 0),
      0x027e32803efa60eed5a1307e4cd567da90e697a5a1f55cc89cbe515942f8ef2d3b),
    ((sampleAccount false, 1),
      0x03fadfab0357448163d3def178be4bfc5e99485f8c5a2206aab80538f1c7dda554),
    ((0x03fadfab0357448163d3def178be4bfc5e99485f8c5a2206aab80538f1c7dda554, 0),
      0x03160db05f0ad3d7792004ac480ea2c0f43260d416400885353fec8886e531a184)]

/- The bytes of a number, the highest first. -/
def sampleBytes (count value : Nat) : Vector UInt8 count :=
  Vector.ofFn (fun i : Fin count => UInt8.ofNat (value >>> (8 * (count - 1 - i.val))))

/- The digest tells the two scripts apart by a byte of the first key in each of them. -/
def sampleBip32 : Bip32 Nat where
  fromStr := fun text =>
    if text = sampleXpub true then some (sampleAccount true)
    else if text = sampleXpub false then some (sampleAccount false)
    else none
  depth := fun _ => 4
  isHardened := fun _ => true
  childNumber := fun index _ => .ok index
  deriveChild := fun parent index =>
    match sampleChildren.lookup (parent, index) with
    | some child => .ok child
    | none => .error "no such key"
  toBytes := sampleBytes 33
  hash160 := fun script => sampleBytes 20
      (if script[3]? = some 0x05 then 0x9220e5d89c80c282af729bd17e98ba6b9ea0d3a5
      else 0x644cf6264608ddb6b843560b60b9ec66b0cd1cc1)

def sampleCosigner (key : Bool) (fingerprint : String) : Cosigner :=
  { name := ""
    accountXpub := sampleXpub key
    masterFingerprint := some fingerprint }

theorem sampleXpub_base58 (first : Bool) :
    (sampleXpub first).toList.length = 111 ∧
    ∀ c ∈ (sampleXpub first).toList, isBase58 c = true := by
  have hSamples :
      ∀ first : Bool,
      (sampleXpub first).toList.length = 111 ∧ (sampleXpub first).toList.all isBase58 = true := by
    decide +kernel
  exact ⟨(hSamples first).1, List.all_eq_true.mp (hSamples first).2⟩

theorem sampleBip32_readsBase58 : sampleBip32.ReadsBase58 := by
  have hSample :
      ∀ first : Bool,
      (sampleXpub first).toList.length ≤ 112 ∧ ∀ c ∈ (sampleXpub first).toList, isBase58 c = true :=
    fun first => ⟨(sampleXpub_base58 first).1.le.trans (by decide), (sampleXpub_base58 first).2⟩
  intro text xpub hFrom
  unfold sampleBip32 at hFrom
  dsimp only at hFrom
  split at hFrom
  · rename_i hText
    rw [hText]
    exact hSample true
  split at hFrom
  · rename_i hText
    rw [hText]
    exact hSample false
  · cases hFrom

theorem trim_sampleXpub (key : Bool) : Text.trim (sampleXpub key) = sampleXpub key := by
  have hTrim :=
    trim_of_forall (fun c hMem => (isKeyChar_of_isBase58 ((sampleXpub_base58 key).2 c hMem)).1)
  rwa [String.ofList_toList] at hTrim

theorem sampleXpub_ne : sampleXpub true ≠ sampleXpub false := by
  decide +kernel

theorem sampleCosigner_isExportable (key : Bool) {fingerprint : String}
    (hSize : (Text.trim fingerprint).utf8ByteSize = 8)
    (hDigits : (Text.trim fingerprint).toList.all isAsciiHexdigit = true) :
    IsExportable sampleBip32 (sampleCosigner key fingerprint) where
  fingerprint := ⟨hSize, List.all_eq_true.mp hDigits⟩
  account := by
    have hFrom : sampleBip32.fromStr (sampleXpub key) = some (sampleAccount key) := by
      unfold sampleBip32
      dsimp only
      cases key
      · rw [if_neg (Ne.symm sampleXpub_ne), if_pos rfl]
      · rw [if_pos rfl]
    have hSome : (sampleXpub key).toList ≠ [] := by
      intro hNil
      have hLength := (sampleXpub_base58 key).1
      rw [hNil] at hLength
      cases hLength
    refine ⟨sampleAccount key, ?_⟩
    unfold Bip32.parseMultisigAccountXpub sampleCosigner
    dsimp only
    rw [trim_sampleXpub, if_neg hSome, hFrom]
    rfl

/- Two of two cosigners, who may share a key. -/
def sampleCosigners (other : Bool) : List Cosigner :=
  [sampleCosigner true " 1CF0bf7e", sampleCosigner other "4fc1dd4a"]

theorem sampleCosigners_exports (other : Bool) : Exports sampleBip32 2 (sampleCosigners other) where
  several := le_refl 2
  threshold := by
    rintro (h | h)
    · cases h
    · exact absurd h (Nat.lt_irrefl 2)
  exportable := by
    intro cosigner hMem
    rcases List.mem_cons.mp hMem with rfl | hMem
    · exact sampleCosigner_isExportable true (by decide +kernel) (by decide +kernel)
    · rw [List.mem_singleton.mp hMem]
      exact sampleCosigner_isExportable other (by decide +kernel) (by decide +kernel)

theorem descriptorSet_restorable_two_keys :
    ∃ set,
    descriptorSet sampleBip32 2 (sampleCosigners false) ⟨145, 0⟩ = .ok set ∧
      Restorable sampleBip32 2 (sampleCosigners false) ⟨145, 0⟩ set := by
  rcases exists_descriptorSet (sampleCosigners_exports false) sampleBip32_readsBase58 ⟨145, 0⟩ with
    ⟨set, hSet⟩
  refine ⟨set, hSet, ?_⟩
  rw [descriptorSet_restorable_iff sampleBip32_readsBase58 hSet]
  refine ⟨by decide, ?_⟩
  unfold sampleCosigners sampleCosigner
  rw [List.map_cons, List.map_cons, List.map_nil, trim_sampleXpub, trim_sampleXpub, List.nodup_cons,
    List.mem_singleton]
  exact ⟨sampleXpub_ne, List.nodup_singleton _⟩

/- Two cosigners that share an account key are exported, and what is exported is refused. -/
theorem shared_key_is_exported_and_refused :
    ∃ set,
    descriptorSet sampleBip32 2 (sampleCosigners true) ⟨145, 0⟩ = .ok set ∧
      (∀ parsed, parseDescriptor sampleBip32 set.receive ≠ .ok parsed) ∧
      ¬ Restorable sampleBip32 2 (sampleCosigners true) ⟨145, 0⟩ set := by
  have hExports := sampleCosigners_exports true
  have hShared : ¬ ((sampleCosigners true).map Cosigner.xpub).Nodup :=
    fun hNodup => (List.nodup_cons.mp hNodup).1 List.mem_cons_self
  rcases exists_descriptorSet hExports sampleBip32_readsBase58 ⟨145, 0⟩ with ⟨set, hSet⟩
  have hPerm := inTextOrder_perm ⟨145, 0⟩ (sampleCosigners true)
  have hReceive := (descriptorSet_eq_ok_iff.mp hSet).2.1
  rw [sortListedKeys_map] at hReceive
  refine ⟨set, hSet, ?_, fun hRestorable => hShared hRestorable.checkPolicy.2⟩
  intro parsed hParsed
  rw [parseDescriptor_written (hExports.of_perm hPerm.symm)
    sampleBip32_readsBase58 (hPerm.length_eq ▸ by decide)
    hReceive] at hParsed
  rcases bind_eq_ok_iff.mp hParsed with ⟨done, hPolicy, -⟩
  have hDistinct := (checkPolicy_eq_ok_iff.mp hPolicy).2.2.2
  rw [List.map_map] at hDistinct
  exact hShared ((hPerm.map _).nodup_iff.mp hDistinct)

end OptnWallet.Multisig
