import Mathlib.Data.List.Basic
import Mathlib.Logic.Relation

/-!
# Interleaved machines and their recorded runs

A machine has one start state and an executable step. An action carries every
choice of the environment: which party moves, what an outside call answers. A
blocked or illegal action has no successor.

A run is recorded as the list of its steps, each with the state it was taken in.
Conditions on a run are conditions on the members of that list, so an invariant
may be proved for every run or for the runs whose steps all meet a condition.
`exec` evaluates a list of actions and yields the recorded run of a concrete
schedule.
-/

namespace Interleave

/-- `step` is partial: an action that cannot be performed in a state has no result. -/
structure Machine (σ : Type*) (α : Type*) where
  start : σ
  step : σ → α → Option σ

namespace Machine

variable {σ α : Type*} (M : Machine σ α)

/-- `M.Run tr s`: from the start, performing the recorded steps leads to `s`. -/
inductive Run : List (σ × α) → σ → Prop
  | start : Run [] M.start
  | step {tr : List (σ × α)} {s t : σ} {a : α} :
      Run tr s → M.step s a = some t → Run (tr ++ [(s, a)]) t

/-- Every step of a recorded run meets the condition in the state it was taken in. -/
def Meets (ok : σ → α → Prop) (tr : List (σ × α)) : Prop :=
  ∀ x ∈ tr, ok x.1 x.2

def Reachable (s : σ) : Prop := ∃ tr, M.Run tr s

variable {M}

@[simp] theorem meets_nil (ok : σ → α → Prop) : Meets ok [] := by
  simp [Meets]

@[simp] theorem meets_snoc {ok : σ → α → Prop} {tr : List (σ × α)} {s : σ} {a : α} :
    Meets ok (tr ++ [(s, a)]) ↔ Meets ok tr ∧ ok s a := by
  constructor
  · intro h
    exact ⟨fun x hx => h x (List.mem_append_left _ hx), h (s, a) (by simp)⟩
  · rintro ⟨h, hlast⟩ x hx
    rcases List.mem_append.mp hx with hx | hx
    · exact h x hx
    · obtain rfl := List.mem_singleton.mp hx
      exact hlast

theorem Meets.mono {ok ok' : σ → α → Prop} {tr : List (σ × α)} (h : Meets ok tr)
    (imp : ∀ s a, ok s a → ok' s a) : Meets ok' tr :=
  fun x hx => imp _ _ (h x hx)

theorem Meets.append {ok : σ → α → Prop} {tr more : List (σ × α)} (h : Meets ok tr)
    (h' : Meets ok more) : Meets ok (tr ++ more) := by
  intro x hx
  rcases List.mem_append.mp hx with hx | hx
  · exact h x hx
  · exact h' x hx

theorem Run.reachable {tr : List (σ × α)} {s : σ} (h : M.Run tr s) : M.Reachable s := ⟨tr, h⟩

/-- The states of a recorded run are reachable. -/
theorem Run.reachable_of_mem {tr : List (σ × α)} {s : σ} (h : M.Run tr s) {x : σ × α}
    (hx : x ∈ tr) : M.Reachable x.1 := by
  induction h with
  | start => cases hx
  | step hrun _ ih =>
      rcases List.mem_append.mp hx with hx | hx
      · exact ih hx
      · rw [List.mem_singleton.mp hx]
        exact hrun.reachable

/-- What holds at the start and is kept by every step holds in every reachable state. -/
theorem Reachable.invariant {I : σ → Prop} {s : σ} (h : M.Reachable s) (start : I M.start)
    (keep : ∀ s a t, I s → M.step s a = some t → I t) : I s := by
  obtain ⟨tr, hrun⟩ := h
  induction hrun with
  | start => exact start
  | step _ hstep ih => exact keep _ _ _ ih hstep

/-- The invariant rule with an invariant `J` proved before. -/
theorem Reachable.invariant_of {I J : σ → Prop} {s : σ} (h : M.Reachable s)
    (known : ∀ {s}, M.Reachable s → J s) (start : I M.start)
    (keep : ∀ s a t, J s → J t → I s → M.step s a = some t → I t) : I s := by
  obtain ⟨tr, hrun⟩ := h
  induction hrun with
  | start => exact start
  | step hrun hstep ih =>
      exact keep _ _ _ (known hrun.reachable) (known (hrun.step hstep).reachable) ih hstep

/-- The invariant rule for the runs whose steps all meet a condition. -/
theorem Run.invariant_under {I J : σ → Prop} {ok : σ → α → Prop} {tr : List (σ × α)} {s : σ}
    (h : M.Run tr s) (meets : Meets ok tr) (known : ∀ {s}, M.Reachable s → J s)
    (start : I M.start)
    (keep : ∀ s a t, J s → J t → I s → ok s a → M.step s a = some t → I t) : I s := by
  induction h with
  | start => exact start
  | step hrun hstep ih =>
      obtain ⟨hfront, hlast⟩ := meets_snoc.mp meets
      exact keep _ _ _ (known hrun.reachable) (known (hrun.step hstep).reachable) (ih hfront)
        hlast hstep

/-- A state property decides a step condition: it starts true, and a step keeps
it exactly when it meets the condition. Then it holds at the end of exactly the
runs whose steps all meet the condition. -/
theorem Run.iff_meets {P J : σ → Prop} {dom ok : σ → α → Prop} {tr : List (σ × α)} {s : σ}
    (h : M.Run tr s) (inDom : Meets dom tr)
    (known : ∀ {tr s}, M.Run tr s → Meets dom tr → J s) (start : P M.start)
    (decides : ∀ s a t, J s → dom s a → M.step s a = some t → (P t ↔ P s ∧ ok s a)) :
    P s ↔ Meets ok tr := by
  induction h with
  | start => simpa using start
  | step hrun hstep ih =>
      obtain ⟨hfront, hlast⟩ := meets_snoc.mp inDom
      rw [decides _ _ _ (known hrun hfront) hlast hstep, ih hfront, meets_snoc]

/-- `P` holds in every state of a recorded run that ends in `s`. -/
def Always (P : σ → Prop) (tr : List (σ × α)) (s : σ) : Prop := (∀ x ∈ tr, P x.1) ∧ P s

theorem always_step {P : σ → Prop} {tr : List (σ × α)} {s t : σ} {a : α} :
    Always P (tr ++ [(s, a)]) t ↔ Always P tr s ∧ P t := by
  simp only [Always, List.forall_mem_append, List.forall_mem_singleton]

/-- Where `P` holds, a step leads to a state with `P` exactly when it meets the
condition. Then `P` holds all along exactly the runs whose steps all meet it. -/
theorem Run.always_iff {P J : σ → Prop} {ok : σ → α → Prop} {tr : List (σ × α)} {s : σ}
    (h : M.Run tr s) (known : ∀ {s}, M.Reachable s → J s) (start : P M.start)
    (decides : ∀ s a t, J s → P s → M.step s a = some t → (P t ↔ ok s a)) :
    Always P tr s ↔ Meets ok tr := by
  induction h with
  | start => simpa [Always] using start
  | step hrun hstep ih =>
      rw [always_step, meets_snoc, ih]
      constructor
      · rintro ⟨hfront, ht⟩
        have hs := (ih.mpr hfront).2
        exact ⟨hfront, (decides _ _ _ (known hrun.reachable) hs hstep).mp ht⟩
      · rintro ⟨hfront, hok⟩
        have hs := (ih.mpr hfront).2
        exact ⟨hfront, (decides _ _ _ (known hrun.reachable) hs hstep).mpr hok⟩

/-- A member of a list with one more at its end is that one or stands before it. -/
theorem snoc_eq_append_cons {β : Type*} {tr front rest : List β} {x y : β} :
    tr ++ [x] = front ++ y :: rest ↔ (front = tr ∧ y = x ∧ rest = []) ∨
      ∃ rest', rest = rest' ++ [x] ∧ tr = front ++ y :: rest' := by
  constructor
  · intro heq
    rcases List.eq_nil_or_concat rest with rfl | ⟨rest', z, rfl⟩
    · obtain ⟨rfl, hx⟩ := List.append_inj' heq rfl
      exact Or.inl ⟨rfl, (List.cons.inj hx).1.symm, rfl⟩
    · rw [List.concat_eq_append, ← List.cons_append, ← List.append_assoc] at heq
      obtain ⟨rfl, hz⟩ := List.append_inj' heq rfl
      rw [(List.cons.inj hz).1]
      exact Or.inr ⟨rest', List.concat_eq_append, rfl⟩
  · rintro (⟨rfl, rfl, rfl⟩ | ⟨rest', rfl, rfl⟩)
    · rfl
    · simp

/-- The steps before a step of a run lead to the state it is taken in. -/
theorem Run.front {tr front rest : List (σ × α)} {s : σ} {x : σ × α} (h : M.Run tr s)
    (htr : tr = front ++ x :: rest) : M.Run front x.1 := by
  induction h generalizing rest with
  | start => exact absurd (congrArg List.length htr) (by simp)
  | step hrun _ ih =>
      rcases snoc_eq_append_cons.mp htr with ⟨rfl, rfl, _⟩ | ⟨_, _, htr⟩
      · exact hrun
      · exact ih htr

/-- `P` holds of the recorded run and of every front of it, with the state it leads to. -/
def Throughout (P : List (σ × α) → σ → Prop) (tr : List (σ × α)) (s : σ) : Prop :=
  (∀ front x rest, tr = front ++ x :: rest → P front x.1) ∧ P tr s

theorem throughout_step {P : List (σ × α) → σ → Prop} {tr : List (σ × α)} {s t : σ} {a : α} :
    Throughout P (tr ++ [(s, a)]) t ↔ Throughout P tr s ∧ P (tr ++ [(s, a)]) t := by
  refine and_congr_left fun _ => ?_
  constructor
  · intro h
    refine ⟨?_, h tr (s, a) [] rfl⟩
    rintro front x rest rfl
    exact h front x (rest ++ [(s, a)]) (by simp)
  · rintro ⟨hfronts, htr⟩ front x rest heq
    rcases snoc_eq_append_cons.mp heq with ⟨rfl, rfl, _⟩ | ⟨rest, _, heq⟩
    · exact htr
    · exact hfronts front x rest heq

/-- What holds at the end of every run whose steps meet a condition holds all along it. -/
theorem Run.always {J : σ → Prop} {ok : σ → α → Prop} {tr : List (σ × α)} {s : σ}
    (h : M.Run tr s) (meets : Meets ok tr)
    (known : ∀ {tr s}, M.Run tr s → Meets ok tr → J s) : Always J tr s := by
  induction h with
  | start => exact ⟨nofun, known .start meets⟩
  | step hrun hstep ih =>
      exact always_step.mpr ⟨ih (meets_snoc.mp meets).1, known (hrun.step hstep) meets⟩

/-- `Run.always_iff` for a property of the recorded run. -/
theorem Run.throughout_iff {P : List (σ × α) → σ → Prop} {J : σ → Prop} {ok : σ → α → Prop}
    {tr : List (σ × α)} {s : σ} (h : M.Run tr s) (known : Always J tr s) (start : P [] M.start)
    (decides : ∀ tr s a t, J s → J t → P tr s → M.step s a = some t →
      (P (tr ++ [(s, a)]) t ↔ ok s a)) :
    Throughout P tr s ↔ Meets ok tr := by
  induction h with
  | start => simpa [Throughout] using start
  | step hrun hstep ih =>
      obtain ⟨hfront, hlast⟩ := always_step.mp known
      rw [throughout_step, meets_snoc, ← ih hfront]
      exact and_congr_right fun hs => decides _ _ _ _ hfront.2 hlast hs.2 hstep

/-- Steps that meet the condition lead from one state to the other. -/
def Leads (M : Machine σ α) (ok : σ → α → Prop) : σ → σ → Prop :=
  Relation.ReflTransGen fun s t => ∃ a, ok s a ∧ M.step s a = some t

theorem leads_refl (ok : σ → α → Prop) (s : σ) : M.Leads ok s s := Relation.ReflTransGen.refl

theorem Leads.step {ok : σ → α → Prop} {s t u : σ} {a : α} (h : M.Leads ok s t)
    (hstep : M.step t a = some u) (hok : ok t a) : M.Leads ok s u :=
  Relation.ReflTransGen.tail h ⟨a, hok, hstep⟩

theorem Leads.trans {ok : σ → α → Prop} {s t u : σ} (h : M.Leads ok s t) (h' : M.Leads ok t u) :
    M.Leads ok s u :=
  Relation.ReflTransGen.trans h h'

/-- A run goes on to where such steps lead. -/
theorem Run.leads {ok : σ → α → Prop} {tr : List (σ × α)} {s t : σ} (h : M.Run tr s)
    (meets : Meets ok tr) (hst : M.Leads ok s t) : ∃ tr', M.Run tr' t ∧ Meets ok tr' := by
  induction hst with
  | refl => exact ⟨tr, h, meets⟩
  | tail _ hstep ih =>
      obtain ⟨tr', hrun, hmeets⟩ := ih
      obtain ⟨a, hok, hstep⟩ := hstep
      exact ⟨_, hrun.step hstep, meets_snoc.mpr ⟨hmeets, hok⟩⟩

section

variable {τ β : Type*} {N : Machine τ β} {f : σ → τ} {g : α → β}

/-- Where every step of `M` shows as a step of `N`, every run of `M` shows as a run of `N`. -/
theorem Run.project (start : f M.start = N.start)
    (step : ∀ s a t, N.Reachable (f s) → M.step s a = some t → N.step (f s) (g a) = some (f t))
    {tr : List (σ × α)} {s : σ} (h : M.Run tr s) :
    N.Run (tr.map fun x => (f x.1, g x.2)) (f s) := by
  induction h with
  | start => exact start ▸ Run.start
  | step _ hstep ih =>
      rw [List.map_append]
      exact ih.step (step _ _ _ ih.reachable hstep)

/-- Where `M` can follow every step of `N`, it can follow every run of `N`. -/
theorem Run.follow (start : f M.start = N.start)
    (step : ∀ s b u, N.Reachable (f s) → N.step (f s) b = some u →
      ∃ a t, g a = b ∧ f t = u ∧ M.step s a = some t)
    {tr : List (τ × β)} {u : τ} (h : N.Run tr u) :
    ∃ tr' s, M.Run tr' s ∧ f s = u ∧ tr'.map (fun x => (f x.1, g x.2)) = tr := by
  induction h with
  | start => exact ⟨[], M.start, .start, start, rfl⟩
  | step hrun hstep ih =>
      obtain ⟨tr', s, hfollow, rfl, rfl⟩ := ih
      obtain ⟨a, t, rfl, rfl, hs⟩ := step _ _ _ hrun.reachable hstep
      exact ⟨tr' ++ [(s, a)], t, hfollow.step hs, rfl, List.map_append⟩

end

/-- Perform a list of actions, each of which must meet a decidable condition. -/
def exec (M : Machine σ α) (ok : σ → α → Bool) : σ → List α → Option σ
  | s, [] => some s
  | s, a :: rest => if ok s a then (M.step s a).bind (exec M ok · rest) else none

/-- A schedule that executes is a recorded run, and all its steps meet the condition. -/
theorem Run.exec {ok : σ → α → Bool} {acts : List α} :
    ∀ {tr : List (σ × α)} {s t : σ}, M.Run tr s → M.exec ok s acts = some t →
      ∃ more, M.Run (tr ++ more) t ∧ Meets (fun s a => ok s a = true) more := by
  induction acts with
  | nil =>
      intro tr s t hrun h
      obtain rfl := Option.some.inj h
      exact ⟨[], by simpa using hrun, meets_nil _⟩
  | cons a rest ih =>
      intro tr s t hrun h
      simp only [Machine.exec] at h
      split at h
      · rename_i hok
        obtain ⟨u, hu, hrest⟩ := Option.bind_eq_some_iff.mp h
        obtain ⟨more, hmore, hmeets⟩ := ih (hrun.step hu) hrest
        refine ⟨(s, a) :: more, by simpa using hmore, ?_⟩
        intro x hx
        rcases List.mem_cons.mp hx with rfl | hx
        · exact hok
        · exact hmeets x hx
      · cases h

/-- A concrete schedule from the start, with an executable test of its last state. -/
theorem exists_run_of_exec (M : Machine σ α) (ok : σ → α → Bool) (acts : List α)
    (test : σ → Bool) (h : (M.exec ok M.start acts).map test = some true) :
    ∃ tr s, M.Run tr s ∧ Meets (fun s a => ok s a = true) tr ∧ test s = true := by
  obtain ⟨s, hs, htest⟩ := Option.map_eq_some_iff.mp h
  obtain ⟨more, hrun, hmeets⟩ := Run.start.exec hs
  exact ⟨more, s, by simpa using hrun, hmeets, htest⟩

/-- A concrete schedule with two marked actions, and an executable test of the states
they are taken in and of the last state. -/
theorem exists_run_through (M : Machine σ α) (front mid : List α) (a b : α)
    (test : σ → σ → σ → Bool)
    (h : ((M.exec (fun _ _ => true) M.start front).bind fun u =>
      (M.exec (fun _ _ => true) u (a :: mid)).bind fun v =>
        (M.step v b).map (test u v)) = some true) :
    ∃ tr u v s, M.Run tr s ∧ (u, a) ∈ tr ∧ (v, b) ∈ tr ∧ test u v s = true := by
  obtain ⟨u, hu, h⟩ := Option.bind_eq_some_iff.mp h
  obtain ⟨v, hv, h⟩ := Option.bind_eq_some_iff.mp h
  obtain ⟨s, hs, htest⟩ := Option.map_eq_some_iff.mp h
  obtain ⟨first, hfirst, _⟩ := Run.start.exec hu
  obtain ⟨u', hu', hv⟩ := Option.bind_eq_some_iff.mp (by simpa [exec] using hv)
  obtain ⟨second, hsecond, _⟩ := (hfirst.step hu').exec hv
  exact ⟨_, u, v, s, hsecond.step hs, by simp, by simp, htest⟩

end Machine

end Interleave
