import Mathlib.Data.List.Induction
import LwipCs.Interleave.Machine

/-!
# Machines that come to rest

Some of the actions of a machine are its own. Where each of its own steps lowers a measure, it can
take only so many of them in a row, in whatever order they are chosen, and it goes on to a state in
which none is left. The measure may be a relation of states and bounds, where a state has no bound
that can be computed from it.
-/

namespace Interleave

namespace Machine

variable {σ α : Type*} {M : Machine σ α} {own : α → Bool} {left : σ → ℕ → Prop}

theorem Run.unique {tr : List (σ × α)} {s t : σ} (hs : M.Run tr s) (ht : M.Run tr t) : s = t := by
  cases hs with
  | start =>
      generalize htr : ([] : List (σ × α)) = tr at ht
      cases ht with
      | start => rfl
      | step _ _ => exact absurd htr (by simp)
  | @step tr' s' t' a hrun hstep =>
      generalize htr : tr' ++ [(s', a)] = tr at ht
      cases ht with
      | start => exact absurd htr (by simp)
      | step hrun' hstep' =>
          obtain ⟨rfl, hlast⟩ := List.append_inj' htr rfl
          obtain ⟨rfl, rfl⟩ := Prod.mk.inj (List.singleton_inj.mp hlast)
          exact Option.some.inj (hstep.symm.trans hstep')

/-- Every action of a run is one of the machine's own. -/
def AllOwn (own : α → Bool) (more : List (σ × α)) : Prop := ∀ x ∈ more, own x.2 = true

/-- None of the machine's own actions can be performed. -/
def Still (M : Machine σ α) (own : α → Bool) (s : σ) : Prop :=
  ∀ a, own a = true → M.step s a = none

/-- Each of the machine's own steps lowers the measure. -/
def Lowers (M : Machine σ α) (own : α → Bool) (left : σ → ℕ → Prop) : Prop :=
  ∀ {s t : σ} {a : α} {n : ℕ}, M.Reachable s → own a = true → M.step s a = some t → left s n →
    ∃ m, m < n ∧ left t m

/-- The number of steps of its own that a machine takes in a row is bounded. -/
theorem Run.bounded (lowers : Lowers M own left) {tr more : List (σ × α)} {s t : σ} {n : ℕ}
    (hrun : M.Run tr s) (hleft : left s n) (hmore : M.Run (tr ++ more) t)
    (hown : AllOwn own more) : ∃ m, m + more.length ≤ n ∧ left t m := by
  induction more using List.reverseRecOn generalizing t with
  | nil =>
      rw [List.append_nil] at hmore
      rw [← hrun.unique hmore]
      exact ⟨n, Nat.le_refl n, hleft⟩
  | append_singleton more x ih =>
      rw [← List.append_assoc] at hmore
      generalize htr : tr ++ more ++ [x] = tr' at hmore
      cases hmore with
      | start => exact absurd htr (by simp)
      | step hbefore hstep =>
          obtain ⟨rfl, hlast⟩ := List.append_inj' htr rfl
          obtain rfl := List.singleton_inj.mp hlast
          obtain ⟨m, hm, hleft'⟩ := ih hbefore fun x hx => hown x (List.mem_append_left _ hx)
          have hlast := hown _ (List.mem_append_right more (List.mem_singleton_self _))
          obtain ⟨m', hlt, hleft''⟩ := lowers hbefore.reachable hlast hstep hleft'
          refine ⟨m', ?_, hleft''⟩
          rw [List.length_append, List.length_singleton]
          omega

/-- By steps of its own a machine comes to rest. -/
theorem Run.rests (lowers : Lowers M own left) {tr : List (σ × α)} {s : σ} {n : ℕ}
    (hrun : M.Run tr s) (hleft : left s n) :
    ∃ more t, M.Run (tr ++ more) t ∧ AllOwn own more ∧ M.Still own t := by
  induction n using Nat.strongRecOn generalizing tr s with
  | ind n ih =>
      by_cases hstill : M.Still own s
      · refine ⟨[], s, by rwa [List.append_nil], ?_, hstill⟩
        intro x hx
        cases hx
      · obtain ⟨a, ha⟩ := not_forall.mp hstill
        obtain ⟨hown, hstep⟩ := Classical.not_imp.mp ha
        obtain ⟨t, hstep⟩ := Option.ne_none_iff_exists'.mp hstep
        obtain ⟨m, hlt, hleft'⟩ := lowers hrun.reachable hown hstep hleft
        obtain ⟨more, u, hmore, hall, hrest⟩ := ih m hlt (hrun.step hstep) hleft'
        refine ⟨(s, a) :: more, u, by simpa using hmore, ?_, hrest⟩
        intro x hx
        obtain rfl | hx := List.mem_cons.mp hx
        · exact hown
        · exact hall x hx

end Machine

end Interleave
