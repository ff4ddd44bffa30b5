import LwipCs.Interleave.Machine

/-!
# Reentrant locks

A reentrant lock is free, or belongs to one party that has entered it some number of
times. A party that does not hold it may leave it to no effect.
-/

namespace Interleave

/-- What parties do to a reentrant lock. -/
inductive LockOp (ι : Type*)
  | enter (i : ι)
  | leave (i : ι)
  /-- a leave by a party that is not inside -/
  | spare (i : ι)
  deriving DecidableEq, Repr

/-- The holder and how often it has entered. -/
abbrev Reentrant (ι : Type*) := Option (ι × Nat)

namespace Reentrant

variable {ι : Type*} [DecidableEq ι] {u v : Reentrant ι} {i j : ι} {n : Nat}

/-- How often a party is inside. -/
def depth (i : ι) : Reentrant ι → Nat
  | none => 0
  | some (j, n) => if j = i then n else 0

def step : Reentrant ι → LockOp ι → Option (Reentrant ι)
  | none, .enter i => some (some (i, 1))
  | none, .leave _ => none
  | some (j, n), .enter i => if j = i then some (some (i, n + 1)) else none
  | some (j, n), .leave i =>
      if j = i then some (if n ≤ 1 then none else some (i, n - 1)) else none
  | u, .spare i => if u.depth i = 0 then some u else none

def lock (ι : Type*) [DecidableEq ι] : Machine (Reentrant ι) (LockOp ι) := ⟨none, step⟩

/-- The entries of a party that it has not left. -/
def balance (i : ι) (ops : List (LockOp ι)) : Int :=
  (ops.count (.enter i) : Int) - (ops.count (.leave i) : Int)

/-- What an operation adds to a party's balance. -/
def gain (i : ι) : LockOp ι → Int
  | .enter j => if j = i then 1 else 0
  | .leave j => if j = i then -1 else 0
  | .spare _ => 0

@[simp] theorem balance_snoc (ops : List (LockOp ι)) (op : LockOp ι) :
    balance i (ops ++ [op]) = balance i ops + gain i op := by
  simp only [balance, List.count_append, List.count_singleton]
  cases op with
  | enter j =>
      by_cases hj : j = i
      · simp [gain, hj]
        omega
      · simp [gain, hj]
  | leave j =>
      by_cases hj : j = i
      · simp [gain, hj]
        omega
      · simp [gain, hj]
  | spare j => simp [gain]

/-- A lock with a holder has been entered. -/
def Held (u : Reentrant ι) : Prop := ∀ j n, u = some (j, n) → 0 < n

omit [DecidableEq ι] in
theorem Held.some_iff : Held (some (j, n)) ↔ 0 < n := by
  constructor
  · intro h
    exact h j n rfl
  · rintro h _ _ ⟨⟩
    exact h

/-- One operation changes depths by what it gains. -/
theorem step_depth (hu : u.Held) {op : LockOp ι} (h : step u op = some v) (i : ι) :
    v.Held ∧ (v.depth i : Int) = u.depth i + gain i op := by
  cases u with
  | none =>
      cases op with
      | enter k =>
          obtain rfl : some (k, 1) = v := Option.some.inj h
          refine ⟨Held.some_iff.mpr Nat.one_pos, ?_⟩
          simp only [depth, gain]
          split <;> omega
      | leave k => cases h
      | spare k =>
          obtain rfl : none = v := Option.some.inj h
          exact ⟨hu, by simp [gain]⟩
  | some x =>
      obtain ⟨j, n⟩ := x
      have hn := Held.some_iff.mp hu
      cases op with
      | enter k =>
          simp only [step] at h
          split at h
          · rename_i hj
            obtain rfl := Option.some.inj h
            subst hj
            refine ⟨Held.some_iff.mpr (Nat.succ_pos n), ?_⟩
            simp only [depth, gain]
            split <;> omega
          · cases h
      | leave k =>
          simp only [step] at h
          split at h
          · rename_i hj
            obtain rfl := Option.some.inj h
            subst hj
            by_cases hone : n ≤ 1
            · rw [if_pos hone]
              refine ⟨nofun, ?_⟩
              simp only [depth, gain]
              split <;> omega
            · rw [if_neg hone]
              refine ⟨Held.some_iff.mpr (by omega), ?_⟩
              simp only [depth, gain]
              split <;> omega
          · cases h
      | spare k =>
          simp only [step] at h
          split at h
          · obtain rfl := Option.some.inj h
            exact ⟨hu, by simp [gain]⟩
          · cases h

/-- After any run a party's depth is its balance. -/
theorem run_depth {tr : List (Reentrant ι × LockOp ι)} (h : (lock ι).Run tr u) :
    u.Held ∧ ∀ i, (u.depth i : Int) = balance i (tr.map Prod.snd) := by
  induction h with
  | start => exact ⟨nofun, fun _ => rfl⟩
  | @step tr u v op _ hstep ih =>
      obtain ⟨hheld, hdepth⟩ := ih
      refine ⟨fun j n => (step_depth hheld hstep j).1 j n, fun i => ?_⟩
      rw [List.map_append, List.map_singleton, balance_snoc, ← hdepth i]
      exact (step_depth hheld hstep i).2

/-- Only the holder is inside. -/
theorem eq_of_depth_pos (hi : 0 < u.depth i) (hj : 0 < u.depth j) : i = j := by
  cases u with
  | none => exact absurd hi (Nat.lt_irrefl 0)
  | some x =>
      obtain ⟨k, n⟩ := x
      simp only [depth] at hi hj
      split at hi
      · split at hj
        · rename_i hki hkj
          rw [← hki, hkj]
        · exact absurd hj (Nat.lt_irrefl 0)
      · exact absurd hi (Nat.lt_irrefl 0)

end Reentrant

end Interleave
