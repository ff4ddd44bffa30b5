import Mathlib.Logic.Function.Basic

/-!
# Ownership of locks

Actors hold at most one lock each, and a lock names its holder. `Owned` says that
the two views agree; taking a free lock and giving back a held one keep it.
-/

namespace Interleave

variable {ρ α : Type*} [DecidableEq ρ] [DecidableEq α]
variable {lck : ρ → Option α} {holds : α → Option ρ}

/-- Each actor's claim to hold a lock is what the lock says, and vice versa. -/
def Owned (lck : ρ → Option α) (holds : α → Option ρ) : Prop :=
  ∀ a r, holds a = some r ↔ lck r = some a

namespace Owned

omit [DecidableEq ρ] [DecidableEq α] in
theorem unique (h : Owned lck holds) {a b : α} {r : ρ} (ha : holds a = some r)
    (hb : holds b = some r) : a = b := by
  have hlck := (h a r).mp ha
  rw [(h b r).mp hb] at hlck
  exact (Option.some.inj hlck).symm

omit [DecidableEq ρ] [DecidableEq α] in
theorem free_iff (h : Owned lck holds) {r : ρ} : lck r = none ↔ ∀ a, holds a ≠ some r := by
  constructor
  · intro hfree a ha
    rw [(h a r).mp ha] at hfree
    cases hfree
  · intro hnone
    cases hlck : lck r with
    | none => rfl
    | some a => exact absurd ((h a r).mpr hlck) (hnone a)

theorem acquire (h : Owned lck holds) {a : α} {r : ρ} (hfree : lck r = none)
    (hidle : holds a = none) :
    Owned (Function.update lck r (some a)) (Function.update holds a (some r)) := by
  intro b q
  by_cases hb : b = a
  · subst hb
    rw [Function.update_self]
    by_cases hq : q = r
    · subst hq
      rw [Function.update_self]
      exact ⟨fun _ => rfl, fun _ => rfl⟩
    · rw [Function.update_of_ne hq, ← h b q, hidle]
      exact ⟨fun hrq => absurd (Option.some.inj hrq).symm hq, nofun⟩
  · rw [Function.update_of_ne hb]
    by_cases hq : q = r
    · subst hq
      rw [Function.update_self, h b q, hfree]
      exact ⟨nofun, fun hab => absurd (Option.some.inj hab).symm hb⟩
    · rw [Function.update_of_ne hq]
      exact h b q

theorem release (h : Owned lck holds) {a : α} {r : ρ} (hown : holds a = some r) :
    Owned (Function.update lck r none) (Function.update holds a none) := by
  intro b q
  by_cases hb : b = a
  · subst hb
    rw [Function.update_self]
    by_cases hq : q = r
    · subst hq
      rw [Function.update_self]
      exact ⟨nofun, nofun⟩
    · rw [Function.update_of_ne hq, ← h b q, hown]
      exact ⟨nofun, fun hrq => absurd (Option.some.inj hrq).symm hq⟩
  · rw [Function.update_of_ne hb]
    by_cases hq : q = r
    · subst hq
      rw [Function.update_self]
      exact ⟨fun hbq => absurd (h.unique hbq hown) hb, nofun⟩
    · rw [Function.update_of_ne hq]
      exact h b q

end Owned

end Interleave
