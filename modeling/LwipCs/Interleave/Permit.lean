import Mathlib.Logic.Function.Basic

/-!
# A permit that one party holds

A binary semaphore used as a lock has no owner; who is inside follows from where the
parties stand. `Exclusive` ties the two together: the permit is there and nobody is
inside, or it is taken and exactly one party is.
-/

namespace Interleave

variable {ι : Type*} {c : Nat} {inside : ι → Bool}

/-- The permit `c` and the parties inside. -/
def Exclusive (c : Nat) (inside : ι → Bool) : Prop :=
  (c = 1 ∧ ∀ i, inside i = false) ∨
    (c = 0 ∧ ∃ i, inside i = true ∧ ∀ j, inside j = true → j = i)

namespace Exclusive

theorem one (h : Exclusive c inside) {i j : ι} (hi : inside i = true) (hj : inside j = true) :
    i = j := by
  rcases h with ⟨_, hnone⟩ | ⟨_, k, _, hk⟩
  · rw [hnone i] at hi
    cases hi
  · rw [hk i hi, hk j hj]

/-- The permit is there exactly if nobody is inside. -/
theorem free_iff (h : Exclusive c inside) : 0 < c ↔ ∀ i, inside i = false := by
  rcases h with ⟨rfl, hnone⟩ | ⟨rfl, k, hk, _⟩
  · exact ⟨fun _ => hnone, fun _ => Nat.one_pos⟩
  · refine ⟨fun hlt => absurd hlt (Nat.lt_irrefl 0), fun hnone => ?_⟩
    rw [hnone k] at hk
    cases hk

variable [DecidableEq ι]

/-- A party takes the permit. -/
theorem enter (h : Exclusive c inside) (hc : 0 < c) (i : ι) :
    Exclusive (c - 1) (Function.update inside i true) := by
  have hnone := h.free_iff.mp hc
  rcases h with ⟨rfl, _⟩ | ⟨rfl, _⟩
  · refine Or.inr ⟨rfl, i, Function.update_self .., fun j hj => ?_⟩
    by_contra hne
    rw [Function.update_of_ne hne, hnone j] at hj
    cases hj
  · exact absurd hc (Nat.lt_irrefl 0)

/-- The party inside puts the permit back. -/
theorem leave (h : Exclusive c inside) {i : ι} (hi : inside i = true) :
    Exclusive 1 (Function.update inside i false) := by
  refine Or.inl ⟨rfl, fun j => ?_⟩
  by_cases hj : j = i
  · subst hj
    exact Function.update_self ..
  · rw [Function.update_of_ne hj]
    by_contra hin
    exact hj (h.one (by simpa using hin) hi)

/-- A party moves without going in or out. -/
theorem stay (h : Exclusive c inside) {i : ι} {b : Bool} (hb : b = inside i) :
    Exclusive c (Function.update inside i b) := by
  rwa [hb, Function.update_eq_self]

end Exclusive

end Interleave
