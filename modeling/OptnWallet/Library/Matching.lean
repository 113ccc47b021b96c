import Mathlib.Data.List.Perm.Subperm
import OptnWallet.Library.StagedUpdate

/-
  Items that are looked for in a list one after the other, each of which takes the first item left
  that matches it.

  Main declarations:
    * `Matching.takeFirst` and `Matching.takeAll`
    * `Matching.perm_of_takeAll`
-/

--- Searches

namespace Matching

open StagedUpdate

variable {α β ε : Type}

/- What is left once the first match is taken.  No item after the match is looked at. -/
def takeFirst (found : α → Except ε Bool) : List α → Except ε (Option (List α))
  | [] => .ok none
  | item :: items => do
      if ← found item then .ok (some items)
      else do
        let rest ← takeFirst found items
        .ok (rest.map (fun rest => item :: rest))

/- The items that are left when each wanted one took its match. -/
def takeAll (found : β → α → Except ε Bool) (missing : ε) (wanted : List β) (items : List α) :
    Except ε (List α) :=
  wanted.foldlM
    (fun left want => do
      match ← takeFirst (found want) left with
      | some rest => .ok rest
      | none => .error missing)
    items

/- The first item that matches. -/
def findFirst (found : α → Except ε Bool) : List α → Except ε (Option α)
  | [] => .ok none
  | item :: items => do
      if ← found item then .ok (some item)
      else findFirst found items

--- What Is Taken

variable {found : α → Except ε Bool} {items : List α}

theorem perm_of_takeFirst {rest : List α} (hTake : takeFirst found items = .ok (some rest)) :
    ∃ item, found item = .ok true ∧ items.Perm (item :: rest) := by
  induction items generalizing rest with
  | nil => cases hTake
  | cons item items ih =>
    unfold takeFirst at hTake
    rcases bind_eq_ok_iff.mp hTake with ⟨isMatch, hFound, hTake⟩
    split at hTake
    · rename_i hMatch
      rw [hMatch] at hFound
      rw [← Option.some.inj (Except.ok.inj hTake)]
      exact ⟨item, hFound, List.Perm.refl _⟩
    · rcases bind_eq_ok_iff.mp hTake with ⟨left, hLeft, hTake⟩
      cases left with
      | none => cases hTake
      | some left =>
        rcases ih hLeft with ⟨taken, hTaken, hPerm⟩
        rw [← Option.some.inj (Except.ok.inj hTake)]
        refine ⟨taken, hTaken, ?_⟩
        exact (hPerm.cons item).trans (List.Perm.swap _ _ _)

/- Every wanted item has a match of its own.  By induction over the wanted items. -/
theorem perm_of_takeAll {found : β → α → Except ε Bool} {missing : ε} {wanted : List β}
    {left : List α} (hTake : takeAll found missing wanted items = .ok left) :
    ∃ taken,
    List.Forall₂ (fun want item => found want item = .ok true) wanted taken ∧
      items.Perm (taken ++ left) := by
  unfold takeAll at hTake
  induction wanted generalizing items with
  | nil =>
    cases hTake
    exact ⟨[], List.Forall₂.nil, List.Perm.refl _⟩
  | cons want wanted ih =>
    rw [List.foldlM_cons] at hTake
    rcases bind_eq_ok_iff.mp hTake with ⟨next, hNext, hTake⟩
    rcases bind_eq_ok_iff.mp hNext with ⟨rest, hRest, hNext⟩
    cases rest with
    | none => cases hNext
    | some rest =>
      rw [Except.ok.inj hNext] at hRest
      rcases perm_of_takeFirst hRest with ⟨item, hFound, hFirst⟩
      rcases ih hTake with ⟨taken, hTaken, hPerm⟩
      exact ⟨item :: taken, List.Forall₂.cons hFound hTaken, hFirst.trans (hPerm.cons item)⟩

theorem mem_of_findFirst {item : α} (hFind : findFirst found items = .ok (some item)) :
    item ∈ items ∧ found item = .ok true := by
  induction items with
  | nil => cases hFind
  | cons head items ih =>
    unfold findFirst at hFind
    rcases bind_eq_ok_iff.mp hFind with ⟨isMatch, hFound, hFind⟩
    cases isMatch with
    | true =>
      rw [← Option.some.inj (Except.ok.inj hFind)]
      exact ⟨List.mem_cons_self, hFound⟩
    | false =>
      have hRest := ih hFind
      exact ⟨List.mem_cons_of_mem head hRest.1, hRest.2⟩

/- A search that ends without a match met none. -/
theorem of_findFirst_none (hFind : findFirst found items = .ok none) :
    ∀ item ∈ items, found item = .ok false := by
  induction items with
  | nil => exact List.forall_mem_nil _
  | cons head items ih =>
    unfold findFirst at hFind
    rcases bind_eq_ok_iff.mp hFind with ⟨isMatch, hFound, hFind⟩
    cases isMatch with
    | true => cases hFind
    | false => exact List.forall_mem_cons.mpr ⟨hFound, ih hFind⟩

end Matching
