import Mathlib.Algebra.Module.Basic
import Mathlib.Tactic.Abel
import Mathlib.Tactic.LinearCombination
import Mathlib.Tactic.Module

/-
  Schemes in a group with scalars.

  Commitments to amounts add up: the sum of commitments commits to the sum of the amounts, under
  the sum of the nonces.  The requester of a blind signature shifts the nonce point of the signer,
  up to a sign, and undoes the shift in the answer.

  Main declarations:
    * `Commitments.commit`
    * `Commitments.sum_commit`
    * `BlindSchnorr.blinded`
    * `BlindSchnorr.unblind_eq`
    * `BlindSchnorr.links_iff`
-/

--- Commitments

namespace Commitments

variable {R M : Type} [Ring R] [AddCommGroup M] [Module R M]

def commit (h g : M) (amount nonce : R) : M := amount • h + nonce • g

/- By induction over the commitments. -/
theorem sum_commit {α : Type} (h g : M) (amount nonce : α → R) (items : List α) :
    (items.map (fun item => commit h g (amount item) (nonce item))).sum =
      commit h g (items.map amount).sum (items.map nonce).sum := by
  induction items with
  | nil =>
    unfold commit
    simp only [List.map_nil, List.sum_nil, zero_smul, add_zero]
  | cons item items ih =>
    rw [List.map_cons, List.sum_cons, ih]
    unfold commit
    simp only [List.map_cons, List.sum_cons, add_smul]
    abel

end Commitments

--- Blind Signatures

namespace BlindSchnorr

variable {F P : Type} [CommRing F] [AddCommGroup P] [Module F P]

/- The nonce point that the requester shifts. -/
def blinded (generator key nonce : P) (a b : F) : P := nonce + a • generator + b • key

/- What the verifier computes from a signature. -/
def recovered (generator key : P) (s h : F) : P := s • generator - h • key

variable (generator : P) {x k e a b c h s s' : F}

/- The verifier recovers the shifted point, up to its sign. -/
theorem unblind_eq (hSign : c * c = 1) (hAnswer : s = k + e * x) (hRequest : e = c * h + b) :
    recovered generator (x • generator) (c * (s + a)) h =
      c • blinded generator (x • generator) (k • generator) a b := by
  unfold recovered blinded
  have hScalar : c * (s + a) - h * x = c * (k + a + b * x) := by
    rw [hAnswer, hRequest]
    linear_combination h * x * hSign
  calc
    (c * (s + a)) • generator - h • x • generator
      = (c * (s + a) - h * x) • generator := by module
    _ = (c * (k + a + b * x)) • generator := by rw [hScalar]
    _ = c •
        (k • generator + a • generator +
          b • x • generator) := by module

/- The shifts that belong to a signature and a sign give back the point of the signature. -/
theorem blinded_eq (hAnswer : s = k + e * x) :
    blinded generator (x • generator) (k • generator) (c * s' - s) (e - c * h) =
      c • recovered generator (x • generator) s' h := by
  unfold recovered blinded
  rw [hAnswer]
  module

/- The shifts that a sign and a finished signature determine. -/
theorem links_iff (hSign : c * c = 1) :
    (e = c * h + b ∧ s' = c * (s + a)) ↔ a = c * s' - s ∧ b = e - c * h := by
  constructor
  · rintro ⟨hRequest, hFinished⟩
    constructor
    · rw [hFinished]
      linear_combination (-(s + a)) * hSign
    · rw [hRequest]
      ring
  · rintro ⟨hA, hB⟩
    constructor
    · rw [hB]
      ring
    · rw [hA]
      linear_combination (-s') * hSign

end BlindSchnorr
