import Mathlib.Algebra.Order.Ring.Nat
import Mathlib.Data.List.Induction

/-
  Encodings that are read back in one way: concatenations of records that tell where they end, and
  records that are chained by their hashes, the first one hashed by itself and every later one
  with the hash of what came before it.

  Main declarations:
    * `SelfDelimiting`
    * `SelfDelimiting.flatMap_injective`
    * `HashChain.chain` and `HashChain.hashed`
    * `HashChain.chain_injective`
-/

--- Records

/- The records of an encoding are not empty, and one that starts some bytes is the only one that
   does. -/
structure SelfDelimiting {α β : Type} (Valid : α → Prop) (encode : α → List β) : Prop where
  nonempty : ∀ x, Valid x → encode x ≠ []
  unique : ∀ x y, Valid x → Valid y → ∀ tail tail', encode x ++ tail = encode y ++ tail' → x = y

namespace SelfDelimiting

variable {α β : Type} {Valid : α → Prop} {encode : α → List β}

/- By induction over the records of both. -/
theorem flatMap_injective (hEncode : SelfDelimiting Valid encode) {xs ys : List α}
    (hXs : ∀ x ∈ xs, Valid x) (hYs : ∀ y ∈ ys, Valid y)
    (hSame : xs.flatMap encode = ys.flatMap encode) : xs = ys := by
  induction xs generalizing ys with
  | nil =>
    cases ys with
    | nil => rfl
    | cons y ys =>
      rw [List.flatMap_nil, List.flatMap_cons] at hSame
      have hEmpty := (List.append_eq_nil_iff.mp hSame.symm).1
      exact absurd hEmpty (hEncode.nonempty y (hYs y List.mem_cons_self))
  | cons x xs ih =>
    rw [List.forall_mem_cons] at hXs
    cases ys with
    | nil =>
      rw [List.flatMap_nil, List.flatMap_cons] at hSame
      have hEmpty := (List.append_eq_nil_iff.mp hSame).1
      exact absurd hEmpty (hEncode.nonempty x hXs.1)
    | cons y ys =>
      rw [List.forall_mem_cons] at hYs
      rw [List.flatMap_cons, List.flatMap_cons] at hSame
      have hHead := hEncode.unique x y hXs.1 hYs.1 _ _ hSame
      subst hHead
      rw [List.append_cancel_left_eq] at hSame
      rw [ih hXs.2 hYs.2 hSame]

end SelfDelimiting

--- Chains Of Hashes

namespace HashChain

variable {R S B H : Type} (hash : B → H) (first : R → B) (next : H → S → B)

def chain (start : R) (steps : List S) : H :=
  steps.foldl (fun last step => hash (next last step)) (hash (first start))

theorem chain_append (start : R) (steps : List S) (step : S) :
    chain hash first next start (steps ++ [step]) =
      hash (next (chain hash first next start steps) step) := by
  unfold chain
  rw [List.foldl_append, List.foldl_cons, List.foldl_nil]

/- The records that a chain has hashed. -/
inductive Hashed (start : R) (steps : List S) : B → Prop where
  | first : Hashed start steps (first start)
  | next (done : List S) (step : S) (rest : List S) (hSplit : steps = done ++ step :: rest) :
      Hashed start steps (next (chain hash first next start done) step)

variable {hash first next}

theorem Hashed.append {start : R} {steps : List S} {record : B}
    (hHashed : Hashed hash first next start steps record) (step : S) :
    Hashed hash first next start (steps ++ [step]) record := by
  cases hHashed with
  | first => exact .first
  | next done made rest hSplit =>
    apply Hashed.next done made (rest ++ [step])
    rw [hSplit, List.append_assoc, List.cons_append]

/- Equal hashes have equal chains.  By induction over the steps of the one from its end, where a
   collision would be among the records that were hashed. -/
theorem chain_injective {start start' : R} (hFirst : first start = first start' → start = start')
    (steps : List S) {steps' : List S}
    (hFree : ∀ x y,
      Hashed hash first next start steps x →
        Hashed hash first next start' steps' y →
        hash x = hash y →
        x = y)
    (hNext : ∀ step ∈ steps, ∀ step' ∈ steps', ∀ last last',
      next last step = next last' step' → last = last' ∧ step = step')
    (hApart : ∀ last step, first start ≠ next last step ∧ first start' ≠ next last step)
    (hSame : chain hash first next start steps = chain hash first next start' steps') :
    start = start' ∧ steps = steps' := by
  induction steps using List.reverseRecOn generalizing steps' with
  | nil =>
    rcases List.eq_nil_or_concat steps' with hNil | ⟨done', step', hSteps'⟩
    · subst hNil
      exact ⟨hFirst (hFree _ _ .first .first hSame), rfl⟩
    · rw [List.concat_eq_append] at hSteps'
      subst hSteps'
      rw [chain_append] at hSame
      exact absurd (hFree _ _ .first (.next done' step' [] rfl) hSame) (hApart _ _).1
  | append_singleton done step ih =>
    rcases List.eq_nil_or_concat steps' with hNil | ⟨done', step', hSteps'⟩
    · subst hNil
      rw [chain_append] at hSame
      exact absurd (hFree _ _ (.next done step [] rfl) .first hSame).symm (hApart _ _).2
    · rw [List.concat_eq_append] at hSteps'
      subst hSteps'
      rw [chain_append, chain_append] at hSame
      have hRecords := hFree _ _ (.next done step [] rfl) (.next done' step' [] rfl) hSame
      rcases hNext step (List.mem_append_right _ List.mem_cons_self) step'
        (List.mem_append_right _ List.mem_cons_self) _ _ hRecords with ⟨hLast, hStep⟩
      have hFree' :
          ∀ x y,
            Hashed hash first next start done x →
              Hashed hash first next start' done' y → hash x = hash y → x = y := by
        intro x y hX hY
        exact hFree x y (hX.append step) (hY.append step')
      have hNext' :
          ∀ made ∈ done,
          ∀ made' ∈ done',
            ∀ last last', next last made = next last' made' → last = last' ∧ made = made' := by
        intro made hMade made' hMade'
        exact hNext made (List.mem_append_left _ hMade) made' (List.mem_append_left _ hMade')
      rcases ih hFree' hNext' hLast with ⟨hStart, hDone⟩
      exact ⟨hStart, by rw [hDone, hStep]⟩

end HashChain
