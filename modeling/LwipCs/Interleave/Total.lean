import Mathlib.Algebra.BigOperators.Group.Finset.Piecewise
import Mathlib.Algebra.Order.BigOperators.Group.Finset

/-!
# Totals over unboundedly many parties

A quantity that each of unboundedly many parties holds a share of has a total when only
finitely many shares are not zero. A step of one party moves the total by what it moves
that party's share.
-/

namespace Interleave

open Finset

variable {ι : Type*} {f g : ι → ℕ} {n : ℕ}

/-- `n` is the sum of the shares; all but finitely many of them are zero. -/
def Total (f : ι → ℕ) (n : ℕ) : Prop := ∃ parties : Finset ι,
  (∀ i, i ∉ parties → f i = 0) ∧ ∑ i ∈ parties, f i = n

namespace Total

theorem zero : Total (fun _ : ι => 0) 0 := ⟨∅, fun _ _ => rfl, rfl⟩

/-- Parties without a share may be counted. -/
theorem counting [DecidableEq ι] (h : Total f n) (i : ι) :
    ∃ parties : Finset ι, i ∈ parties ∧ (∀ j, j ∉ parties → f j = 0) ∧
      ∑ j ∈ parties, f j = n := by
  obtain ⟨parties, hout, hsum⟩ := h
  refine ⟨insert i parties, mem_insert_self i parties, ?_, ?_⟩
  · intro j hj
    exact hout j fun hmem => hj (mem_insert_of_mem hmem)
  · by_cases hi : i ∈ parties
    · rw [insert_eq_of_mem hi, hsum]
    · rw [sum_insert hi, hout i hi, Nat.zero_add, hsum]

/-- A share is at most the total. -/
theorem le [DecidableEq ι] (h : Total f n) (i : ι) : f i ≤ n := by
  obtain ⟨parties, hi, _, hsum⟩ := h.counting i
  rw [← hsum]
  exact single_le_sum (fun _ _ => Nat.zero_le _) hi

/-- One party's share changes. -/
theorem update [DecidableEq ι] (h : Total f n) (i : ι) (x : ℕ) :
    Total (Function.update f i x) (n - f i + x) := by
  obtain ⟨parties, hi, hout, hsum⟩ := h.counting i
  refine ⟨parties, ?_, ?_⟩
  · intro j hj
    have hne : j ≠ i := by
      rintro rfl
      exact hj hi
    rw [Function.update_of_ne hne]
    exact hout j hj
  · have hsplit := sum_erase_add parties f hi
    rw [sum_update_of_mem hi, sdiff_singleton_eq_erase]
    omega

/-- Shares that are a measure of what the parties hold. -/
theorem apply_update [DecidableEq ι] {α : Type*} {x : ι → α} (measure : α → ℕ)
    (h : Total (fun i => measure (x i)) n) (i : ι) (y : α) :
    Total (fun j => measure (Function.update x i y j)) (n - measure (x i) + measure y) := by
  have hshares : (fun j => measure (Function.update x i y j)) =
      Function.update (fun j => measure (x j)) i (measure y) := by
    funext j
    exact Function.apply_update (fun _ => measure) x i y j
  rw [hshares]
  exact h.update i _

end Total

end Interleave
