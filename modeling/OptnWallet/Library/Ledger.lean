import Mathlib.Algebra.BigOperators.Group.List.Basic
import Mathlib.Algebra.Order.Ring.Nat

/-
  Amounts posted to accounts: what one account gets, and what all of them get.

  Main declarations:
    * `Ledger.postings`
    * `Ledger.balanceOf` and `Ledger.total`
    * `Ledger.balanceOf_postings`
    * `Ledger.total_postings_add`
-/

--- Balances

namespace Ledger

variable {κ α : Type} [DecidableEq κ]

/- What a list of postings gives to one account. -/
def balanceOf (posted : List (κ × Nat)) (account : κ) : Nat :=
  (posted.map
    (fun posting =>
      if posting.1 = account then posting.2 else 0)).sum

/- What it gives to all accounts. -/
def total (posted : List (κ × Nat)) : Nat := (posted.map Prod.snd).sum

@[simp]
theorem balanceOf_nil (account : κ) : balanceOf [] account = 0 := rfl

theorem balanceOf_append (posted posted' : List (κ × Nat)) (account : κ) :
    balanceOf (posted ++ posted') account =
      balanceOf posted account + balanceOf posted' account := by
  unfold balanceOf
  rw [List.map_append, List.sum_append]

@[simp]
theorem balanceOf_singleton (posting : κ × Nat) (account : κ) :
    balanceOf [posting] account =
      if posting.1 = account then posting.2 else 0 := List.sum_singleton

theorem balanceOf_le_append (posted posted' : List (κ × Nat)) (account : κ) :
    balanceOf posted account ≤ balanceOf (posted ++ posted') account := by
  rw [balanceOf_append]
  exact Nat.le_add_right _ _

omit [DecidableEq κ] in
theorem total_append (posted posted' : List (κ × Nat)) :
    total (posted ++ posted') = total posted + total posted' := by
  unfold total
  rw [List.map_append, List.sum_append]

omit [DecidableEq κ] in
@[simp]
theorem total_singleton (posting : κ × Nat) : total [posting] = posting.2 := List.sum_singleton

--- Postings

/- Each item posts its amount to the account it names. -/
def postings (account? : α → Option κ) (amount : α → Nat) (items : List α) : List (κ × Nat) :=
  items.filterMap (fun item => (account? item).map (fun account => (account, amount item)))

variable (account? : α → Option κ)

omit [DecidableEq κ] in
theorem postings_append (amount : α → Nat) (items items' : List α) :
    postings account? amount (items ++ items') =
      postings account? amount items ++ postings account? amount items' := List.filterMap_append

variable (amount : α → Nat)

omit [DecidableEq κ] in
theorem postings_cons (item : α) (items : List α) :
    postings account? amount (item :: items) =
      postings account? amount [item] ++ postings account? amount items :=
  postings_append account? amount [item] items

omit [DecidableEq κ] in
theorem postings_of_none {account? : α → Option κ} {amount : α → Nat} {item : α}
    (hNone : account? item = none) : postings account? amount [item] = [] := by
  simp [postings, hNone]

omit [DecidableEq κ] in
theorem postings_of_some {account? : α → Option κ} {amount : α → Nat} {item : α} {account : κ}
    (hSome : account? item = some account) :
    postings account? amount [item] = [(account, amount item)] := by
  simp [postings, hSome]

/- An account gets the amounts of the items that name it. -/
theorem balanceOf_postings (items : List α) (account : κ) :
    balanceOf (postings account? amount items) account =
      ((items.filter (fun item => decide (account? item = some account))).map amount).sum := by
  induction items with
  | nil => rfl
  | cons item items ih =>
    rw [postings_cons, balanceOf_append, ih, List.filter_cons]
    cases hItem : account? item with
    | none => simp [postings_of_none hItem]
    | some named =>
      rw [postings_of_some hItem, balanceOf_singleton]
      by_cases hNamed : named = account
      · simp [hNamed]
      · simp [hNamed]

/- The amounts that are posted and those that are not. -/
omit [DecidableEq κ] in
theorem total_postings_add (items : List α) :
    total (postings account? amount items) +
        ((items.filter (fun item => (account? item).isNone)).map amount).sum =
      (items.map amount).sum := by
  induction items with
  | nil => rfl
  | cons item items ih =>
    rw [postings_cons, total_append, List.filter_cons, List.map_cons, List.sum_cons, ← ih]
    cases hItem : account? item with
    | none =>
      rw [postings_of_none hItem]
      simp [total]
      omega
    | some named =>
      rw [postings_of_some hItem, total_singleton]
      simp
      omega

end Ledger
