import Mathlib.Algebra.Order.Ring.Nat

/-
  Runs of a step function.  One that always answers: what holds in every state of a run, and of
  every step of it. One that can fail: what every step keeps, and what a rank that falls with
  every step leads to.

  Main declarations:
    * `Runs.EachState` and `Runs.EachStep`
    * `Runs.eachState_iff_eachStep`
    * `Runs.eachState_of_eachStep`
    * `Runs.Reached` and `Runs.reached_invariant`
    * `RankedRuns.foldlM_keeps`
    * `RankedRuns.exists_done`
-/

namespace Runs

variable {σ α : Type}

/- The property holds before the run, after each of its steps and so after the last one. -/
def EachState (step : σ → α → σ) (P : σ → Prop) (s : σ) (inputs : List α) : Prop :=
  ∀ done rest, inputs = done ++ rest → P (done.foldl step s)

/- The property holds of each input and the state it meets. -/
def EachStep (step : σ → α → σ) (Q : σ → α → Prop) (s : σ) (inputs : List α) : Prop :=
  ∀ done a rest, inputs = done ++ a :: rest → Q (done.foldl step s) a

variable {step : σ → α → σ} {P : σ → Prop} {s : σ}

theorem eachState_nil : EachState step P s [] ↔ P s := by
  constructor
  · intro hEach
    exact hEach [] [] rfl
  · intro hHere done rest hSplit
    rcases List.nil_eq_append_iff.mp hSplit with ⟨rfl, -⟩
    exact hHere

variable {a : α} {inputs : List α}

theorem eachState_cons :
    EachState step P s (a :: inputs) ↔ P s ∧ EachState step P (step s a) inputs := by
  constructor
  · intro hEach
    constructor
    · exact hEach [] (a :: inputs) rfl
    · intro done rest hSplit
      apply hEach (a :: done) rest
      rw [hSplit, List.cons_append]
  · rintro ⟨hHere, hEach⟩ done rest hSplit
    cases done with
    | nil => exact hHere
    | cons first done =>
      rw [List.cons_append, List.cons.injEq] at hSplit
      rcases hSplit with ⟨rfl, hSplit⟩
      exact hEach done rest hSplit

variable {Q : σ → α → Prop}

theorem eachStep_nil : EachStep step Q s [] := by
  intro done a rest hSplit
  have hLength := congrArg List.length hSplit
  simp at hLength

theorem eachStep_cons :
    EachStep step Q s (a :: inputs) ↔ Q s a ∧ EachStep step Q (step s a) inputs := by
  constructor
  · intro hEach
    constructor
    · exact hEach [] a inputs rfl
    · intro done b rest hSplit
      apply hEach (a :: done) b rest
      rw [hSplit, List.cons_append]
  · rintro ⟨hHere, hEach⟩ done b rest hSplit
    cases done with
    | nil =>
      rw [List.nil_append, List.cons.injEq] at hSplit
      rcases hSplit with ⟨rfl, rfl⟩
      exact hHere
    | cons first done =>
      rw [List.cons_append, List.cons.injEq] at hSplit
      rcases hSplit with ⟨rfl, hSplit⟩
      exact hEach done b rest hSplit

theorem eachState_concat :
    EachState step P s (inputs ++ [a]) ↔
    EachState step P s inputs ∧ P (step (inputs.foldl step s) a) := by
  induction inputs generalizing s with
  | nil =>
    rw [List.nil_append, eachState_cons, eachState_nil, eachState_nil]
    rfl
  | cons first inputs ih =>
    rw [List.cons_append, eachState_cons, eachState_cons, ih, and_assoc]
    rfl

theorem eachStep_concat :
    EachStep step Q s (inputs ++ [a]) ↔ EachStep step Q s inputs ∧ Q (inputs.foldl step s) a := by
  induction inputs generalizing s with
  | nil =>
    rw [List.nil_append, eachStep_cons]
    simp [eachStep_nil]
  | cons first inputs ih =>
    rw [List.cons_append, eachStep_cons, eachStep_cons, ih, and_assoc]
    rfl

/-
  Where a step keeps an invariant exactly under a condition, a run keeps it exactly when each of
  its steps meets that condition.  By induction over the inputs.
-/
theorem eachState_iff_eachStep {Inv : σ → Prop} (hStep : ∀ s a, Inv s → (Inv (step s a) ↔ Q s a))
    (hInv : Inv s) : EachState step Inv s inputs ↔ EachStep step Q s inputs := by
  induction inputs generalizing s with
  | nil =>
    rw [eachState_nil]
    exact iff_of_true hInv eachStep_nil
  | cons a inputs ih =>
    rw [eachState_cons, eachStep_cons]
    constructor
    · rintro ⟨-, hRest⟩
      have hNext : Inv (step s a) := hRest [] inputs rfl
      exact ⟨(hStep s a hInv).mp hNext, (ih hNext).mp hRest⟩
    · rintro ⟨hHere, hRest⟩
      have hNext : Inv (step s a) := (hStep s a hInv).mpr hHere
      exact ⟨hInv, (ih hNext).mpr hRest⟩

/- Where a step keeps an invariant under a condition, it holds in every state of a run whose steps
   meet the condition. -/
theorem eachState_of_eachStep {Inv : σ → Prop} {Q : σ → α → Prop}
    (hStep : ∀ s a, Inv s → Q s a → Inv (step s a)) {s : σ} (hInv : Inv s) {inputs : List α}
    (hEach : EachStep step Q s inputs) : EachState step Inv s inputs := by
  induction inputs generalizing s with
  | nil => exact eachState_nil.mpr hInv
  | cons a inputs ih =>
    rcases eachStep_cons.mp hEach with ⟨hHere, hRest⟩
    exact eachState_cons.mpr ⟨hInv, ih (hStep s a hInv hHere) hRest⟩

/- What an invariant says of each input that meets it. -/
theorem eachStep_of_eachState {Inv : σ → Prop} {R : σ → α → Prop} (hHere : ∀ s a, Inv s → R s a)
    (hEach : EachState step Inv s inputs) : EachStep step R s inputs := by
  intro done a rest hSplit
  exact hHere _ a (hEach done (a :: rest) hSplit)

--- Runs of admitted inputs

/- States that are reached from the first ones, by inputs that are admitted where they come. -/
inductive Reached (step : σ → α → σ) (First : σ → Prop) (Admits : σ → α → Prop) : σ → Prop where
  | first {s : σ} (first : First s) :
      Reached step First Admits s
  | step {s : σ} (reached : Reached step First Admits s) (a : α) (admitted : Admits s a) :
      Reached step First Admits (step s a)

variable {First : σ → Prop} {Admits : σ → α → Prop}

/- By induction over the run. -/
theorem reached_invariant (hFirst : ∀ s, First s → P s)
    (hStep : ∀ s a, P s → Admits s a → P (step s a)) (hReached : Reached step First Admits s) :
    P s := by
  induction hReached with
  | first first => exact hFirst _ first
  | step reached a admitted ih => exact hStep _ a ih admitted

theorem reached_mono {Admits' : σ → α → Prop} (hMono : ∀ s a, Admits s a → Admits' s a)
    (hReached : Reached step First Admits s) : Reached step First Admits' s := by
  induction hReached with
  | first first => exact .first first
  | step reached a admitted ih => exact ih.step a (hMono _ a admitted)

/- Whether a check admits each of the inputs. -/
def admitsEach (step : σ → α → σ) (admits : σ → α → Bool) : σ → List α → Bool
  | _, [] => true
  | s, a :: inputs => admits s a && admitsEach step admits (step s a) inputs

/- By induction over the inputs. -/
theorem reached_foldl (admits : σ → α → Bool) (hAdmits : ∀ s a, admits s a = true → Admits s a)
    (inputs : List α) (hReached : Reached step First Admits s)
    (hEach : admitsEach step admits s inputs = true) :
    Reached step First Admits (inputs.foldl step s) := by
  induction inputs generalizing s with
  | nil => exact hReached
  | cons a inputs ih =>
    unfold admitsEach at hEach
    rw [Bool.and_eq_true] at hEach
    exact ih (hReached.step a (hAdmits s a hEach.1)) hEach.2

end Runs

--- Runs That Can Fail

namespace RankedRuns

variable {σ α : Type} {step : σ → α → Option σ}

theorem foldlM_cons_eq_some_iff {a : α} {inputs : List α} {s final : σ} :
    (a :: inputs).foldlM step s = some final ↔
    ∃ next, step s a = some next ∧ inputs.foldlM step next = some final := by
  rw [List.foldlM_cons]
  cases step s a with
  | none => simp
  | some next => simp

/- By induction over the inputs of the run. -/
theorem foldlM_keeps {Inv : σ → Prop} {Allowed : α → Prop}
    (hStep : ∀ s a next, Inv s → Allowed a → step s a = some next → Inv next) {inputs : List α}
    (hAllowed : ∀ a ∈ inputs, Allowed a) {s final : σ} (hInv : Inv s)
    (hRun : inputs.foldlM step s = some final) : Inv final := by
  induction inputs generalizing s with
  | nil =>
    cases hRun
    exact hInv
  | cons a inputs ih =>
    rcases foldlM_cons_eq_some_iff.mp hRun with ⟨next, hHere, hRest⟩
    have hFirst := hAllowed a (List.mem_cons_self ..)
    apply ih _ (hStep s a next hInv hFirst hHere) hRest
    intro other hMem
    exact hAllowed other (List.mem_cons_of_mem a hMem)

--- Ranks

/-
  A run that can always go on, and whose rank falls until it is done, is done after finitely many
  steps.  By induction on the rank.
-/
theorem exists_done {Inv Done : σ → Prop} {Allowed : α → Prop} {rank : σ → Nat}
    (hStep : ∀ s a, Inv s → Allowed a → ¬ Done s → ∃ next,
      step s a = some next ∧ Inv next ∧ (Done next ∨ rank next < rank s)) {s : σ} (hInv : Inv s)
    {inputs : Nat → α} (hAllowed : ∀ round, Allowed (inputs round)) :
    ∃ rounds final,
    ((List.range rounds).map inputs).foldlM step s = some final ∧ Inv final ∧ Done final := by
  induction hRank : rank s using Nat.strongRecOn generalizing s inputs with
  | _ bound ih =>
    by_cases hDone : Done s
    · exact ⟨0, s, rfl, hInv, hDone⟩
    rcases hStep s (inputs 0) hInv (hAllowed 0) hDone with ⟨next, hNext, hKept, hEnd | hLess⟩
    · refine ⟨1, next, ?_, hKept, hEnd⟩
      rw [List.range_one, List.map_singleton, foldlM_cons_eq_some_iff]
      exact ⟨next, hNext, rfl⟩
    · rcases
          ih (rank next) (by omega) hKept
            (fun round => hAllowed (round + 1)) rfl with
        ⟨rounds, final, hRun, hFinal, hEnd⟩
      refine ⟨rounds + 1, final, ?_, hFinal, hEnd⟩
      rw [List.range_succ_eq_map, List.map_cons, List.map_map, foldlM_cons_eq_some_iff]
      exact ⟨next, hNext, hRun⟩

end RankedRuns
