import Mathlib.Algebra.Order.Ring.Nat
import Mathlib.Data.List.DropRight

/-
  A text that is trimmed at both ends, and then cut where it first stops, with one of its
  characters replaced.

  Main declarations:
    * `TrimmedText.trimmed` and `TrimmedText.cut`
    * `TrimmedText.trimmed_replaced`
    * `TrimmedText.cut_replaced`
-/

namespace TrimmedText

variable {α : Type} (blank stop : α → Bool)

def trimmed (text : List α) : List α := (text.dropWhile blank).rdropWhile blank

def cut (text : List α) : List α := (trimmed blank text).takeWhile (fun c => !stop c)

variable {blank stop}

--- Trimming

variable {c : α}

theorem rdropWhile_cons (hPlain : blank c = false) (front back : List α) :
    (front ++ c :: back).rdropWhile blank = front ++ c :: back.rdropWhile blank := by
  unfold List.rdropWhile
  rw [List.reverse_append, List.reverse_cons, List.append_assoc, List.singleton_append,
    List.dropWhile_append]
  split
  · rename_i hEmpty
    rw [List.isEmpty_iff] at hEmpty
    rw [List.dropWhile_cons_of_neg (by rw [hPlain]; decide),
      hEmpty, List.reverse_cons, List.reverse_reverse, List.reverse_nil]
  · rw [List.reverse_append, List.reverse_cons, List.reverse_reverse, List.append_assoc,
      List.singleton_append]

theorem dropWhile_cons (hPlain : blank c = false) (front back : List α) :
    (front ++ c :: back).dropWhile blank = front.dropWhile blank ++ c :: back := by
  rw [List.dropWhile_append]
  split
  · rename_i hEmpty
    rw [List.isEmpty_iff] at hEmpty
    rw [List.dropWhile_cons_of_neg (by rw [hPlain]; decide), hEmpty, List.nil_append]
  · rfl

/- Around a character that is not blank, each side is trimmed on its own. -/
theorem trimmed_cons (hPlain : blank c = false) (front back : List α) :
    trimmed blank (front ++ c :: back) = front.dropWhile blank ++ c :: back.rdropWhile blank := by
  unfold trimmed
  rw [dropWhile_cons hPlain, rdropWhile_cons hPlain]

theorem trimmed_infix (text : List α) : trimmed blank text <:+: text :=
  (List.rdropWhile_prefix blank _).isInfix.trans (List.dropWhile_suffix blank).isInfix

theorem trimmed_append_blank {front back : List α} (hBlank : ∀ c ∈ back, blank c = true) :
    trimmed blank (front ++ back) = trimmed blank front := by
  unfold trimmed
  have hBack : back.reverse.dropWhile blank = [] := by
    rw [List.dropWhile_eq_nil_iff]
    intro c hMem
    exact hBlank c (List.mem_reverse.mp hMem)
  rw [List.dropWhile_append]
  split
  · rename_i hEmpty
    rw [List.isEmpty_iff] at hEmpty
    have hNone : back.dropWhile blank = [] := List.dropWhile_eq_nil_iff.mpr hBlank
    rw [hEmpty, hNone]
  · unfold List.rdropWhile
    rw [List.reverse_append, List.dropWhile_append, hBack]
    rfl

theorem trimmed_blank_append {front back : List α} (hBlank : ∀ c ∈ front, blank c = true) :
    trimmed blank (front ++ back) = trimmed blank back := by
  unfold trimmed
  have hNone : front.dropWhile blank = [] := List.dropWhile_eq_nil_iff.mpr hBlank
  rw [List.dropWhile_append, hNone]
  rfl

theorem trimmed_trimmed (text : List α) :
    trimmed blank (trimmed blank text) = trimmed blank text := by
  unfold trimmed
  cases hStart : text.dropWhile blank with
  | nil => rfl
  | cons c rest =>
    have hPlain : blank c = false := by
      have hHead := List.head?_dropWhile_not blank text
      rw [hStart] at hHead
      exact hHead
    have hKept := rdropWhile_cons hPlain [] rest
    rw [List.nil_append, List.nil_append] at hKept
    rw [hKept, List.dropWhile_cons_of_neg (by rw [hPlain]; decide)]
    have hAgain := rdropWhile_cons hPlain [] (rest.rdropWhile blank)
    rw [List.nil_append, List.nil_append, List.rdropWhile_idempotent] at hAgain
    exact hAgain

variable {text : List α}

/- Around a character that is not blank, neither side of what was trimmed has blanks to trim. -/
theorem of_trimmed_eq (hPlain : blank c = false) {front back : List α}
    (hText : trimmed blank text = front ++ c :: back) :
    front.dropWhile blank = front ∧ back.rdropWhile blank = back := by
  have hSame : trimmed blank (trimmed blank text) = trimmed blank text := trimmed_trimmed text
  rw [hText, trimmed_cons hPlain] at hSame
  have hFront := List.length_dropWhile_le blank front
  have hBack := (List.rdropWhile_prefix blank (l := back)).length_le
  have hLength := congrArg List.length hSame
  simp only [List.length_append, List.length_cons] at hLength
  rcases List.append_inj hSame (by omega) with ⟨hKept, hRest⟩
  exact ⟨hKept, (List.cons.inj hRest).2⟩

/- Blanks at the end are trimmed, and nothing else is of what has none in it. -/
theorem trimmed_of_rdropWhile (hPlain : ∀ c ∈ text.rdropWhile blank, blank c = false) :
    trimmed blank text = text.rdropWhile blank := by
  have hSplit : text.rdropWhile blank ++ text.rtakeWhile blank = text :=
    List.rdropWhile_append_rtakeWhile
  have hBlank : ∀ c ∈ text.rtakeWhile blank, blank c = true :=
    fun c hMem => List.mem_rtakeWhile_imp hMem
  have hTrimmed := @trimmed_append_blank α blank (text.rdropWhile blank) _ hBlank
  rw [hSplit] at hTrimmed
  rw [hTrimmed]
  unfold trimmed
  have hDrop : (text.rdropWhile blank).dropWhile blank = text.rdropWhile blank := by
    cases hText : text.rdropWhile blank with
    | nil => rfl
    | cons c rest =>
      apply List.dropWhile_cons_of_neg
      rw [hPlain c (by rw [hText]; exact List.mem_cons_self)]
      decide
  rw [hDrop, List.rdropWhile_idempotent]

theorem exists_plain (hSome : ¬ ∀ c ∈ text, blank c = true) :
    ∃ front c back, text = front ++ c :: back ∧ blank c = false := by
  rw [not_forall] at hSome
  rcases hSome with ⟨c, hSome⟩
  rw [Classical.not_imp, Bool.not_eq_true] at hSome
  rcases hSome with ⟨hMem, hPlain⟩
  rcases List.append_of_mem hMem with ⟨front, back, hText⟩
  exact ⟨front, c, back, hText, hPlain⟩

theorem length_trimmed_le (text : List α) :
    (trimmed blank text).length ≤ (text.rdropWhile blank).length := by
  by_cases hBlank : ∀ c ∈ text, blank c = true
  · have hNone : text.dropWhile blank = [] := List.dropWhile_eq_nil_iff.mpr hBlank
    unfold trimmed
    rw [hNone]
    exact Nat.zero_le _
  · rcases exists_plain hBlank with ⟨front, c, back, rfl, hC⟩
    rw [trimmed_cons hC, rdropWhile_cons hC, List.length_append, List.length_append]
    have hFront := List.length_dropWhile_le blank front
    omega

--- Another Character

section Replaced

variable (front back : List α)

/- A blank character is between others, or at an end where any blank one is trimmed. -/
theorem trimmed_of_blank :
    (∀ c, trimmed blank (front ++ c :: back) = front.dropWhile blank ++ c :: back.rdropWhile blank)
      ∨
    (front.dropWhile blank = [] ∧ ∀ c,
        blank c = true → trimmed blank (front ++ c :: back) = trimmed blank back) ∨
    (back.rdropWhile blank = [] ∧ ∀ c,
      blank c = true →
        trimmed blank (front ++ c :: back) = (front.dropWhile blank).rdropWhile blank) := by
  by_cases hFront : ∀ c ∈ front, blank c = true
  · right
    left
    refine ⟨List.dropWhile_eq_nil_iff.mpr hFront, ?_⟩
    intro c hBlank
    rw [trimmed_blank_append hFront, ← List.singleton_append, trimmed_blank_append]
    simpa using hBlank
  · by_cases hBack : ∀ c ∈ back, blank c = true
    · right
      right
      refine ⟨List.rdropWhile_eq_nil_iff.mpr hBack, ?_⟩
      intro c hBlank
      refine (trimmed_append_blank ?_).trans rfl
      rw [List.forall_mem_cons]
      exact ⟨hBlank, hBack⟩
    · left
      intro c
      rcases exists_plain hFront with ⟨f, x, f', rfl, hX⟩
      rcases exists_plain hBack with ⟨b, y, b', rfl, hY⟩
      have hInner := rdropWhile_cons hY (f' ++ c :: b) b'
      rw [List.append_assoc, List.cons_append] at hInner
      rw [List.append_assoc, List.cons_append, trimmed_cons hX, hInner, dropWhile_cons hX,
        rdropWhile_cons hY]
      simp only [List.append_assoc, List.cons_append]

/-
  Trimmed texts of one length that differ in one character differ in it inside, or are the same
  for two blank ones.
-/
theorem trimmed_replaced {c d : α}
    (hLength :
        (trimmed blank (front ++ c :: back)).length = (trimmed blank (front ++ d :: back)).length) :
    (blank c = true ∧ blank d = true ∧
        trimmed blank (front ++ c :: back) = trimmed blank (front ++ d :: back)) ∨
    ∀ x,
      x = c ∨ x = d → trimmed blank (front ++ x :: back) =
          front.dropWhile blank ++ x :: back.rdropWhile blank := by
  -- what a blank one leaves is shorter than with a plain one
  have hShort :
      (∀ x,
          trimmed blank (front ++ x :: back) = front.dropWhile blank ++ x :: back.rdropWhile blank)
        ∨
      ∃ rest,
        rest.length ≤ (front.dropWhile blank).length + (back.rdropWhile blank).length ∧
          ∀ x, blank x = true → trimmed blank (front ++ x :: back) = rest := by
    rcases @trimmed_of_blank α blank front back with hAll | ⟨hNone, hBlank⟩ | ⟨-, hBlank⟩
    · exact Or.inl hAll
    · refine Or.inr ⟨_, ?_, hBlank⟩
      have hLe := @length_trimmed_le α blank back
      omega
    · refine Or.inr ⟨_, ?_, hBlank⟩
      have hLe := (List.rdropWhile_prefix blank (l := front.dropWhile blank)).length_le
      omega
  rcases hShort with hAll | ⟨rest, hRest, hBlank⟩
  · right
    intro x _
    exact hAll x
  · have hPlainLength :
        ∀ x, blank x = false → rest.length < (trimmed blank (front ++ x :: back)).length := by
      intro x hPlain
      rw [trimmed_cons hPlain, List.length_append, List.length_cons]
      omega
    cases hC : blank c with
    | true =>
      cases hD : blank d with
      | true =>
        left
        exact ⟨rfl, rfl, (hBlank c hC).trans (hBlank d hD).symm⟩
      | false =>
        have hLt := hPlainLength d hD
        rw [hBlank c hC] at hLength
        omega
    | false =>
      cases hD : blank d with
      | true =>
        have hLt := hPlainLength c hC
        rw [hBlank d hD] at hLength
        omega
      | false =>
        right
        rintro x (rfl | rfl)
        · exact trimmed_cons hC front back
        · exact trimmed_cons hD front back

omit front back in
theorem takeWhile_prefix_of_prefix {p : α → Bool} {short long : List α} (hPrefix : short <+: long) :
    short.takeWhile p <+: long.takeWhile p := by
  rcases hPrefix with ⟨rest, rfl⟩
  rw [List.takeWhile_append]
  split
  · exact (List.takeWhile_prefix p).trans (List.prefix_append _ _)
  · exact List.prefix_refl _

/- Where a cut text ends: at a stop in front of the character, at the character, or behind it. -/
theorem cut_values (hFront : front.dropWhile blank ≠ []) :
    ∃ short kept rest,
    short <+: kept ∧ ∀ c,
        cut blank stop (front ++ c :: back) = short ∨ cut blank stop (front ++ c :: back) = kept ∨
          (kept = front.dropWhile blank ∧
            cut blank stop (front ++ c :: back) = kept ++ c :: rest) := by
  refine ⟨((front.dropWhile blank).rdropWhile blank).takeWhile (fun c => !stop c),
    (front.dropWhile blank).takeWhile (fun c => !stop c),
    (back.rdropWhile blank).takeWhile (fun c => !stop c),
    takeWhile_prefix_of_prefix (List.rdropWhile_prefix blank _), ?_⟩
  -- a character that is kept inside
  have hInside :
      ∀ c,
        trimmed blank (front ++ c :: back) = front.dropWhile blank ++ c :: back.rdropWhile blank →
          cut blank stop (front ++ c :: back) =
              (front.dropWhile blank).takeWhile (fun c => !stop c) ∨
            ((front.dropWhile blank).takeWhile (fun c => !stop c) = front.dropWhile blank ∧
              cut blank stop (front ++ c :: back) =
                (front.dropWhile blank).takeWhile (fun c => !stop c) ++
                  c :: (back.rdropWhile blank).takeWhile (fun c => !stop c)) := by
    intro c hTrimmed
    unfold cut
    rw [hTrimmed, List.takeWhile_append]
    split
    · rename_i hWhole
      have hKept :=
        (List.takeWhile_prefix (fun c => !stop c) (l := front.dropWhile blank)).eq_of_length hWhole
      rw [hKept, List.takeWhile_cons]
      cases hC : stop c with
      | true =>
        left
        simp
      | false =>
        right
        exact ⟨rfl, by simp⟩
    · left
      rfl
  intro c
  cases hBlank : blank c with
  | false =>
    right
    exact hInside c (trimmed_cons hBlank front back)
  | true =>
    rcases @trimmed_of_blank α blank front back with hAll | ⟨hNone, -⟩ | ⟨-, hEnd⟩
    · right
      exact hInside c (hAll c)
    · exact absurd hNone hFront
    · left
      unfold cut
      rw [hEnd c hBlank]

/-
  Cut texts of one length are the same, or they differ in the character that was replaced.
-/
theorem cut_replaced (hFront : front.dropWhile blank ≠ []) {c d : α}
    (hLength :
        (cut blank stop (front ++ c :: back)).length = (cut blank stop (front ++ d :: back)).length)
      :
    cut blank stop (front ++ c :: back) = cut blank stop (front ++ d :: back) ∨
    ∃ rest,
      ∀ x,
        x = c ∨ x = d →
          cut blank stop (front ++ x :: back) = front.dropWhile blank ++ x :: rest := by
  rcases @cut_values α blank stop front back hFront with ⟨short, kept, rest, hShort, hValues⟩
  have hLe := hShort.length_le
  rcases hValues c with hC | hC | ⟨hKept, hC⟩ <;>
    rcases hValues d with hD | hD | ⟨hKept', hD⟩ <;>
    rw [hC, hD] at hLength ⊢
  · exact Or.inl rfl
  · exact Or.inl (hShort.eq_of_length hLength)
  · rw [List.length_append, List.length_cons] at hLength
    omega
  · exact Or.inl (hShort.eq_of_length hLength.symm).symm
  · exact Or.inl rfl
  · rw [List.length_append, List.length_cons] at hLength
    omega
  · rw [List.length_append, List.length_cons] at hLength
    omega
  · rw [List.length_append, List.length_cons] at hLength
    omega
  · right
    refine ⟨rest, ?_⟩
    rintro x (rfl | rfl)
    · rw [hC, hKept]
    · rw [hD, hKept]

/- Characters that are neither blank nor a stop take the same place. -/
theorem length_cut_plain {c d : α} (hC : blank c = false) (hD : blank d = false)
    (hStopC : stop c = false) (hStopD : stop d = false) :
    (cut blank stop (front ++ c :: back)).length =
      (cut blank stop (front ++ d :: back)).length := by
  unfold cut
  rw [trimmed_cons hC, trimmed_cons hD, List.takeWhile_append, List.takeWhile_append]
  split
  · simp [hStopC, hStopD]
  · rfl

end Replaced

end TrimmedText
