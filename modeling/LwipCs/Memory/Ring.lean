import Mathlib.Data.Nat.ModEq
import Mathlib.Logic.Function.Basic

/-!
# Ring buffers over counters that only grow

A queue of fewer than `size` items lies in `size` slots. `first` items were ever taken and
`last` were ever put; the slot of an item is its number modulo `size`. The slots outside
the queue are unrestricted.
-/

namespace Memory

variable {α : Type*} {size first last : ℕ} {slots : ℕ → Option α} {q : List α} {x : α}

/-- The queue that lies in the slots between the counters. -/
structure Ring (size : ℕ) (slots : ℕ → Option α) (first last : ℕ) (q : List α) : Prop where
  count : last = first + q.length
  room : q.length < size
  lies : ∀ i y, q[i]? = some y → slots ((first + i) % size) = some y

namespace Ring

theorem empty (hsize : 0 < size) (slots : ℕ → Option α) (n : ℕ) : Ring size slots n n [] :=
  ⟨rfl, hsize, nofun⟩

theorem empty_iff (h : Ring size slots first last q) : first = last ↔ q = [] := by
  rw [h.count, ← List.length_eq_zero_iff]
  omega

/-- The test that keeps one slot free. -/
theorem full_iff (h : Ring size slots first last q) :
    first + size ≤ last + 1 ↔ q.length + 1 = size := by
  have := h.room
  rw [h.count]
  omega

/-- Two item numbers less than `size` apart have different slots. -/
theorem slot_ne {i j : ℕ} (hlt : i < j) (hnear : j < i + size) : i % size ≠ j % size := by
  intro heq
  have hdvd : size ∣ j - i := (Nat.modEq_iff_dvd' (Nat.le_of_lt hlt)).mp heq
  have hle := Nat.le_of_dvd (by omega) hdvd
  omega

/-- An item goes into the slot of the next number. -/
theorem push (h : Ring size slots first last q) (hroom : last + 1 < first + size) (x : α) :
    Ring size (Function.update slots (last % size) (some x)) first (last + 1) (q ++ [x]) := by
  have hcount := h.count
  refine ⟨?_, ?_, ?_⟩
  · rw [List.length_append, List.length_singleton, hcount, Nat.add_assoc]
  · rw [List.length_append, List.length_singleton]
    omega
  · intro i y hi
    by_cases hold : i < q.length
    · rw [List.getElem?_append_left hold] at hi
      have hne : (first + i) % size ≠ last % size := by
        apply slot_ne <;> omega
      rw [Function.update_of_ne hne]
      exact h.lies i y hi
    · rw [List.getElem?_append_right (Nat.le_of_not_lt hold)] at hi
      obtain ⟨hzero, hxy⟩ : i - q.length = 0 ∧ x = y := by
        cases hn : i - q.length with
        | zero => simpa [hn] using hi
        | succ n => simp [hn] at hi
      have hlast : first + i = last := by omega
      rw [hlast, Function.update_self, hxy]

/-- The oldest item lies in the slot of `first`. -/
theorem head (h : Ring size slots first last (x :: q)) : slots (first % size) = some x :=
  h.lies 0 x rfl

/-- The oldest item goes. -/
theorem pop (h : Ring size slots first last (x :: q)) : Ring size slots (first + 1) last q := by
  have hcount := h.count
  have hroom := h.room
  rw [List.length_cons] at hcount hroom
  refine ⟨by omega, by omega, ?_⟩
  intro i y hi
  rw [Nat.add_assoc, Nat.add_comm 1 i]
  exact h.lies (i + 1) y hi

end Ring

end Memory
