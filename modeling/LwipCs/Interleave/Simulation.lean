import LwipCs.Interleave.Machine

/-!
# Simulation with silent steps

A step of the simulating machine is silent, or shows as one step of the specification.
Whether it shows, and as what, is read from the state it is taken in. Every run of the
machine then shows as a run of the specification that performs what the labels say, in
their order.
-/

namespace Interleave

namespace Machine

variable {σ α τ β : Type*}

/-- The visible actions of a recorded run, in order. -/
def shown (label : σ → α → Option β) (tr : List (σ × α)) : List β :=
  tr.filterMap fun x => label x.1 x.2

@[simp] theorem shown_snoc (label : σ → α → Option β) (tr : List (σ × α)) (s : σ) (a : α) :
    shown label (tr ++ [(s, a)]) = shown label tr ++ (label s a).toList := by
  simp only [shown, List.filterMap_append]
  cases h : label s a <;> simp [h]

/-- What a simulating step owes: nothing changes above, or one step with that label. -/
def Matches (N : Machine τ β) (rel : σ → τ → Prop) (s' : σ) (u : τ) : Option β → Prop
  | none => rel s' u
  | some b => ∃ u', N.step u b = some u' ∧ rel s' u'

/-- A forward simulation of `N` by `M`, step by step from reachable states. -/
structure Simulation (M : Machine σ α) (N : Machine τ β) (label : σ → α → Option β) where
  rel : σ → τ → Prop
  start : rel M.start N.start
  step : ∀ s a s' u, M.Reachable s → rel s u → M.step s a = some s' →
    Matches N rel s' u (label s a)

variable {M : Machine σ α} {N : Machine τ β} {label : σ → α → Option β}

/-- Every run shows as a run of the specification. -/
theorem Simulation.run (sim : Simulation M N label) {tr : List (σ × α)} {s : σ}
    (h : M.Run tr s) :
    ∃ tr' u, N.Run tr' u ∧ sim.rel s u ∧ tr'.map Prod.snd = shown label tr := by
  induction h with
  | start => exact ⟨[], N.start, .start, sim.start, rfl⟩
  | @step tr s t a hrun hstep ih =>
      obtain ⟨tr', u, habs, hrel, hshown⟩ := ih
      have hmatch := sim.step s a t u hrun.reachable hrel hstep
      rw [shown_snoc]
      cases hlabel : label s a with
      | none =>
          rw [hlabel] at hmatch
          exact ⟨tr', u, habs, hmatch, by rw [hshown, Option.toList_none, List.append_nil]⟩
      | some b =>
          rw [hlabel] at hmatch
          obtain ⟨u', hstep', hrel'⟩ := hmatch
          refine ⟨tr' ++ [(u, b)], u', habs.step hstep', hrel', ?_⟩
          rw [List.map_append, hshown]
          rfl

end Machine

end Interleave
