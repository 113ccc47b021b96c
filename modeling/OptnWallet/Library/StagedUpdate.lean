import Mathlib.Algebra.Order.Ring.Nat
import Mathlib.Data.List.Forall2

/-
  Fallible updates of a mutable receiver that are staged on a copy and assigned back only when
  every step succeeded, and what is combined of fallible steps that return.

  Main declarations:
    * `StagedUpdate.assign`
    * `StagedUpdate.foldlM_invariant`
    * `StagedUpdate.feedAll` and `feedAll_eq_ok_iff`
    * `StagedUpdate.Returns`
    * `StagedUpdate.returns_bind_iff`
    * `StagedUpdate.foldlM_returns`
-/

--- Assigning A Staged Copy

namespace StagedUpdate

variable {σ α ε : Type}

/-
  What a method on a mutable receiver leaves behind: the result it returned and the receiver.
-/
abbrev Outcome (ε σ : Type) := Except ε Unit × σ

/- Assign the staged receiver, or keep the old one. -/
def assign (self : σ) (staged : Except ε σ) : Outcome ε σ :=
  match staged with
  | .ok staged => (.ok (), staged)
  | .error e => (.error e, self)

theorem assign_eq_ok_iff {self self' : σ} {staged : Except ε σ} :
    assign self staged = (.ok (), self') ↔ staged = .ok self' := by
  cases staged with
  | ok staged => simp [assign]
  | error e => simp [assign]

variable {e : ε}

theorem assign_eq_error_iff {self self' : σ} {staged : Except ε σ} :
    assign self staged = (.error e, self') ↔ staged = .error e ∧ self' = self := by
  cases staged with
  | ok staged => simp [assign]
  | error e' => simp [assign, eq_comm]

--- Runs Of Fallible Steps

/-
  An invariant indexed by the consumed prefix that every successful step keeps holds after a
  successful run.
-/
theorem foldlM_invariant {step : σ → α → Except ε σ} {Inv : List α → σ → Prop}
    (hStep : ∀ consumed s a s', Inv consumed s → step s a = .ok s' → Inv (consumed ++ [a]) s')
    {consumed inputs : List α} {s s' : σ} (hInv : Inv consumed s)
    (hRun : inputs.foldlM step s = .ok s') : Inv (consumed ++ inputs) s' := by
  induction inputs generalizing consumed s with
  | nil =>
    cases hRun
    simpa using hInv
  | cons a inputs ih =>
    rw [List.foldlM_cons] at hRun
    cases hHere : step s a with
    | error e =>
      rw [hHere] at hRun
      cases hRun
    | ok next =>
      rw [hHere] at hRun
      have hNext := hStep consumed s a next hInv hHere
      have hRest := ih hNext hRun
      simpa using hRest

/- The rule where what was consumed does not matter. -/
theorem foldlM_keeps {step : σ → α → Except ε σ} {Inv : σ → Prop}
    (hStep : ∀ s a s', Inv s → step s a = .ok s' → Inv s') {inputs : List α} {s s' : σ}
    (hInv : Inv s) (hRun : inputs.foldlM step s = .ok s') : Inv s' := by
  exact @foldlM_invariant σ α ε step (fun _ => Inv) (fun _ => hStep) [] inputs s s' hInv hRun

theorem foldlM_append_eq_ok_iff {step : σ → α → Except ε σ} {front back : List α} {s s'' : σ} :
    (front ++ back).foldlM step s = .ok s'' ↔
    ∃ s', front.foldlM step s = .ok s' ∧ back.foldlM step s' = .ok s'' := by
  rw [List.foldlM_append]
  cases front.foldlM step s with
  | error e => simp [bind, Except.bind]
  | ok s' => simp [bind, Except.bind]

variable {β : Type} {first : Except ε α} {a : α}

theorem bind_of_ok (hFirst : first = .ok a) (next : α → Except ε β) : first >>= next = next a := by
  rw [hFirst]
  rfl

theorem bind_eq_ok_iff {next : α → Except ε β} {b : β} :
    first >>= next = .ok b ↔ ∃ a, first = .ok a ∧ next a = .ok b := by
  cases first with
  | error e => simp [bind, Except.bind]
  | ok a => simp [bind, Except.bind]

/- An error that no step ends in is not what the steps end in. -/
theorem bind_ne_error {next : α → Except ε β} (hFirst : first ≠ .error e)
    (hNext : ∀ a, first = .ok a → next a ≠ .error e) : first >>= next ≠ .error e := by
  cases first with
  | error other =>
    intro hError
    apply hFirst
    cases hError
    rfl
  | ok a => exact hNext a rfl

/- A check of every value. -/
theorem forM_eq_ok_iff {check : α → Except ε Unit} {values : List α} :
    values.forM check = .ok () ↔ ∀ value ∈ values, check value = .ok () := by
  induction values with
  | nil => exact ⟨fun _ => List.forall_mem_nil _, fun _ => rfl⟩
  | cons value values ih =>
    rw [List.forall_mem_cons, ← ih]
    change (check value >>= fun _ => values.forM check) = .ok () ↔ _
    rw [bind_eq_ok_iff]
    constructor
    · rintro ⟨⟨⟩, hHere, hRest⟩
      exact ⟨hHere, hRest⟩
    · rintro ⟨hHere, hRest⟩
      exact ⟨(), hHere, hRest⟩

variable {inputs : List α}

theorem mapM_ne_error {f : α → Except ε β} (hEach : ∀ a ∈ inputs, f a ≠ .error e) :
    inputs.mapM f ≠ .error e := by
  induction inputs with
  | nil =>
    intro hError
    cases hError
  | cons a inputs ih =>
    rw [List.forall_mem_cons] at hEach
    rw [List.mapM_cons]
    apply bind_ne_error hEach.1
    intro b _
    apply bind_ne_error (ih hEach.2)
    intro rest _ hError
    cases hError

theorem toOption_bind (first : Except ε α) (next : α → Except ε β) :
    (first >>= next).toOption = first.toOption.bind (fun a => (next a).toOption) := by
  cases first with
  | error e => rfl
  | ok a => rfl

theorem eq_ok_of_toOption {result : Except ε α} (hSome : result.toOption = some a) :
    result = .ok a := by
  cases result with
  | error e => cases hSome
  | ok value =>
    cases hSome
    rfl

/- A run that can be evaluated shows what it ends in. -/
theorem exists_ok_of_check {result : Except ε σ} {Holds : σ → Prop} [DecidablePred Holds]
    (hCheck : result.toOption.any (fun s => decide (Holds s)) = true) :
    ∃ s, result = .ok s ∧ Holds s := by
  cases result with
  | error e => cases hCheck
  | ok s => exact ⟨s, rfl, of_decide_eq_true hCheck⟩

/- By induction over the list. -/
theorem mem_of_mapM {f : α → Except ε β} {outputs : List β} (hMap : inputs.mapM f = .ok outputs)
    {b : β} : b ∈ outputs ↔ ∃ a ∈ inputs, f a = .ok b := by
  induction inputs generalizing outputs with
  | nil =>
    cases hMap
    simp
  | cons a inputs ih =>
    rw [List.mapM_cons] at hMap
    rcases bind_eq_ok_iff.mp hMap with ⟨first, hFirst, hMap⟩
    rcases bind_eq_ok_iff.mp hMap with ⟨rest, hRest, hMap⟩
    cases hMap
    simp only [List.mem_cons, exists_eq_or_imp, hFirst, ih hRest, Except.ok.injEq]
    rw [eq_comm]

theorem exists_of_mapM {f : α → Except ε β} {outputs : List β} (hMap : inputs.mapM f = .ok outputs)
    (hMem : a ∈ inputs) : ∃ b, f a = .ok b := by
  induction inputs generalizing outputs with
  | nil => cases hMem
  | cons first inputs ih =>
    rw [List.mapM_cons] at hMap
    rcases bind_eq_ok_iff.mp hMap with ⟨b, hFirst, hMap⟩
    rcases bind_eq_ok_iff.mp hMap with ⟨rest, hRest, -⟩
    rcases List.mem_cons.mp hMem with rfl | hMem
    · exact ⟨b, hFirst⟩
    · exact ih hRest hMem

theorem exists_mapM {f : α → Except ε β} (hEach : ∀ a ∈ inputs, ∃ b, f a = .ok b) :
    ∃ outputs, inputs.mapM f = .ok outputs := by
  induction inputs with
  | nil => exact ⟨[], rfl⟩
  | cons a inputs ih =>
    rw [List.forall_mem_cons] at hEach
    rcases hEach with ⟨⟨b, hHere⟩, hRest⟩
    rcases ih hRest with ⟨outputs, hOutputs⟩
    refine ⟨b :: outputs, ?_⟩
    rw [List.mapM_cons, hHere, hOutputs]
    rfl

/- Steps that each compute a value where a condition holds compute all of the values where it holds
   of every input. -/
theorem mapM_eq_ok_iff {f : α → Except ε β} {Accepts : α → Prop} {g : α → β}
    (hEach : ∀ a b, f a = .ok b ↔ Accepts a ∧ b = g a) {outputs : List β} :
    inputs.mapM f = .ok outputs ↔ (∀ a ∈ inputs, Accepts a) ∧ outputs = inputs.map g := by
  induction inputs generalizing outputs with
  | nil =>
    rw [List.mapM_nil, List.map_nil]
    constructor
    · intro hNil
      cases hNil
      exact ⟨fun a hMem => absurd hMem List.not_mem_nil, rfl⟩
    · rintro ⟨-, rfl⟩
      rfl
  | cons a inputs ih =>
    rw [List.mapM_cons, bind_eq_ok_iff, List.forall_mem_cons, List.map_cons]
    constructor
    · rintro ⟨b, hHere, hRest⟩
      rcases bind_eq_ok_iff.mp hRest with ⟨rest, hTail, hOk⟩
      rcases (hEach a b).mp hHere with ⟨hAccepts, rfl⟩
      rcases ih.mp hTail with ⟨hAll, rfl⟩
      cases hOk
      exact ⟨⟨hAccepts, hAll⟩, rfl⟩
    · rintro ⟨⟨hAccepts, hAll⟩, rfl⟩
      refine ⟨g a, (hEach a _).mpr ⟨hAccepts, rfl⟩, ?_⟩
      rw [bind_of_ok (ih.mpr ⟨hAll, rfl⟩)]
      rfl

theorem length_of_mapM {f : α → Except ε β} {outputs : List β}
    (hMap : inputs.mapM f = .ok outputs) : outputs.length = inputs.length := by
  induction inputs generalizing outputs with
  | nil =>
    cases hMap
    rfl
  | cons a inputs ih =>
    rw [List.mapM_cons] at hMap
    rcases bind_eq_ok_iff.mp hMap with ⟨b, -, hMap⟩
    rcases bind_eq_ok_iff.mp hMap with ⟨rest, hRest, hMap⟩
    cases hMap
    rw [List.length_cons, List.length_cons, ih hRest]

/- Each output is what the step gives for its input. -/
theorem forall₂_of_mapM {f : α → Except ε β} {Gives : α → β → Prop}
    (hEach : ∀ a b, f a = .ok b → Gives a b) {outputs : List β}
    (hMap : inputs.mapM f = .ok outputs) : List.Forall₂ Gives inputs outputs := by
  induction inputs generalizing outputs with
  | nil =>
    cases hMap
    exact List.Forall₂.nil
  | cons a inputs ih =>
    rw [List.mapM_cons] at hMap
    rcases bind_eq_ok_iff.mp hMap with ⟨b, hHere, hMap⟩
    rcases bind_eq_ok_iff.mp hMap with ⟨rest, hRest, hSame⟩
    cases hSame
    exact List.Forall₂.cons (hEach a b hHere) (ih hRest)

/- What two functions agree on at every step, they agree on over the whole. -/
theorem map_eq_of_mapM {γ : Type} {f : α → Except ε β} {g : β → γ} {h : α → γ}
    (hEach : ∀ a b, f a = .ok b → g b = h a) {outputs : List β}
    (hMap : inputs.mapM f = .ok outputs) : outputs.map g = inputs.map h := by
  induction inputs generalizing outputs with
  | nil =>
    cases hMap
    rfl
  | cons a inputs ih =>
    rw [List.mapM_cons] at hMap
    rcases bind_eq_ok_iff.mp hMap with ⟨b, hHere, hMap⟩
    rcases bind_eq_ok_iff.mp hMap with ⟨rest, hRest, hMap⟩
    cases hMap
    rw [List.map_cons, List.map_cons, hEach a b hHere, ih hRest]

theorem mapM_of_ok {f : α → Except ε β} {g : α → β} (hEach : ∀ a ∈ inputs, f a = .ok (g a)) :
    inputs.mapM f = .ok (inputs.map g) := by
  induction inputs with
  | nil => rfl
  | cons a inputs ih =>
    rw [List.forall_mem_cons] at hEach
    rw [List.mapM_cons, bind_of_ok hEach.1, bind_of_ok (ih hEach.2)]
    rfl

/- Inputs in another order have the same outputs in another order.  By induction over the swaps. -/
theorem exists_mapM_of_perm {f : α → Except ε β} {others : List α} (hPerm : inputs.Perm others)
    {outputs : List β} (hMap : inputs.mapM f = .ok outputs) :
    ∃ results, others.mapM f = .ok results ∧ outputs.Perm results := by
  induction hPerm generalizing outputs with
  | nil => exact ⟨outputs, hMap, List.Perm.refl _⟩
  | cons a hPerm ih =>
    rw [List.mapM_cons] at hMap
    rcases bind_eq_ok_iff.mp hMap with ⟨b, hHere, hMap⟩
    rcases bind_eq_ok_iff.mp hMap with ⟨rest, hRest, hMap⟩
    cases hMap
    rcases ih hRest with ⟨results, hResults, hSame⟩
    refine ⟨b :: results, ?_, hSame.cons b⟩
    rw [List.mapM_cons, hHere, hResults]
    rfl
  | swap a b inputs =>
    rw [List.mapM_cons] at hMap
    rcases bind_eq_ok_iff.mp hMap with ⟨y, hSecond, hMap⟩
    rcases bind_eq_ok_iff.mp hMap with ⟨rest, hRest, hMap⟩
    cases hMap
    rw [List.mapM_cons] at hRest
    rcases bind_eq_ok_iff.mp hRest with ⟨x, hFirst, hRest⟩
    rcases bind_eq_ok_iff.mp hRest with ⟨back, hBack, hRest⟩
    cases hRest
    refine ⟨x :: y :: back, ?_, List.Perm.swap x y back⟩
    rw [List.mapM_cons, hFirst, List.mapM_cons, hSecond, hBack]
    rfl
  | trans hLeft hRight ihLeft ihRight =>
    rcases ihLeft hMap with ⟨middle, hMiddle, hFirst⟩
    rcases ihRight hMiddle with ⟨results, hResults, hSecond⟩
    exact ⟨results, hResults, hFirst.trans hSecond⟩

/- Two runs that end in the same values, if they end in any. -/
theorem toOption_eq_of_ok_iff {second : Except ε α} (hSame : ∀ a, first = .ok a ↔ second = .ok a) :
    first.toOption = second.toOption := by
  cases first with
  | ok a => rw [(hSame a).mp rfl]
  | error e =>
    cases second with
    | ok a => cases (hSame a).mpr rfl
    | error e => rfl

theorem mapError_eq_ok_iff {ε' : Type} {f : ε → ε'} {result : Except ε α} :
    result.mapError f = .ok a ↔ result = .ok a := by
  constructor
  · intro hMapped
    cases result with
    | error e => cases hMapped
    | ok value =>
      cases hMapped
      rfl
  · intro hOk
    rw [hOk]
    rfl

/-
  Feed batches to a method one after the other, for as long as each of them succeeds.
-/
def feedAll (method : σ → List α → Outcome ε σ) (self : σ) : List (List α) → Except ε σ
  | [] => .ok self
  | batch :: batches =>
    match method self batch with
    | (.error e, _) => .error e
    | (.ok (), self) => feedAll method self batches

/-
  A method that accepts a concatenation exactly when it accepts the two parts in turn does not see
  how its input is cut into batches.
-/
theorem feedAll_eq_ok_iff {method : σ → List α → Outcome ε σ}
    (hNil : ∀ self, method self [] = (.ok (), self))
    (hAppend : ∀ self front back self'', method self (front ++ back) = (.ok (), self'') ↔ ∃ self',
      method self front = (.ok (), self') ∧ method self' back = (.ok (), self''))
    (batches : List (List α)) (self self' : σ) :
    feedAll method self batches = .ok self' ↔ method self batches.flatten = (.ok (), self') := by
  induction batches generalizing self with
  | nil => simp [feedAll, hNil]
  | cons batch batches ih =>
    rw [List.flatten_cons, hAppend]
    unfold feedAll
    rcases hHere : method self batch with ⟨result, next⟩
    cases result with
    | error e => simp
    | ok done =>
      constructor
      · intro hRest
        exact ⟨next, rfl, (ih next).mp hRest⟩
      · rintro ⟨mid, hMid, hRest⟩
        cases hMid
        exact (ih next).mpr hRest

--- Steps That Return

section Returning

variable {β : Type}

def Returns (result : Except ε α) : Prop := ∃ a, result = .ok a

theorem returns_ok (a : α) : Returns (.ok a : Except ε α) := ⟨a, rfl⟩

theorem returns_error (e : ε) : ¬ Returns (.error e : Except ε α) := by
  rintro ⟨a, hError⟩
  cases hError

variable {first : Except ε α}

theorem returns_bind_iff {next : α → Except ε β} :
    Returns (first >>= next) ↔ ∃ a, first = .ok a ∧ Returns (next a) := by
  unfold Returns
  constructor
  · rintro ⟨b, hBind⟩
    rcases bind_eq_ok_iff.mp hBind with ⟨a, hFirst, hNext⟩
    exact ⟨a, hFirst, b, hNext⟩
  · rintro ⟨a, hFirst, b, hNext⟩
    exact ⟨b, bind_eq_ok_iff.mpr ⟨a, hFirst, hNext⟩⟩

theorem returns_bind {next : α → Except ε β} (hFirst : Returns first)
    (hNext : ∀ a, first = .ok a → Returns (next a)) : Returns (first >>= next) := by
  rcases hFirst with ⟨a, hOk⟩
  exact returns_bind_iff.mpr ⟨a, hOk, hNext a hOk⟩

/- After a step that returns, it is up to the next one. -/
theorem returns_bind_iff_of_ok {a : α} (hFirst : first = .ok a) (next : α → Except ε β) :
    Returns (first >>= next) ↔ Returns (next a) := by
  rw [bind_of_ok hFirst]

/- By induction over the inputs. -/
theorem foldlM_returns {step : σ → α → Except ε σ} {Inv : σ → Prop} {inputs : List α}
    (hStep : ∀ s, ∀ a ∈ inputs, Inv s → ∃ s', step s a = .ok s' ∧ Inv s') {s : σ} (hInv : Inv s) :
    ∃ s', inputs.foldlM step s = .ok s' ∧ Inv s' := by
  induction inputs generalizing s with
  | nil => exact ⟨s, rfl, hInv⟩
  | cons a inputs ih =>
    rcases hStep s a List.mem_cons_self hInv with ⟨s', hHere, hNext⟩
    rw [List.foldlM_cons, bind_of_ok hHere]
    apply ih ?_ hNext
    intro other b hMem
    exact hStep other b (List.mem_cons_of_mem _ hMem)

theorem returns_foldlM {step : σ → α → Except ε σ} {inputs : List α}
    (hStep : ∀ s, ∀ a ∈ inputs, Returns (step s a)) (s : σ) : Returns (inputs.foldlM step s) := by
  have hEach : ∀ s, ∀ a ∈ inputs, True → ∃ s', step s a = .ok s' ∧ True := by
    intro s a hMem _
    rcases hStep s a hMem with ⟨s', hHere⟩
    exact ⟨s', hHere, trivial⟩
  rcases @foldlM_returns _ _ _ step (fun _ => True) inputs hEach s trivial with ⟨s', hRun, -⟩
  exact ⟨s', hRun⟩

end Returning

end StagedUpdate
