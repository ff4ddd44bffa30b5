import Mathlib.Data.List.Basic

/-!
# Bounded channels that can be closed

A channel operation either blocks, panics, or completes. The rules are those of
a buffered channel: a send waits for room and panics on a closed channel, a
receive drains the buffer before it reports that the channel is closed, and
closing twice panics. A channel can never hold more than its capacity, which is
part of the type.
-/

namespace Interleave

/-- The result of an operation that may have to wait. -/
inductive Outcome (β : Type*)
  | blocked
  | panics
  | done (b : β)

@[ext]
structure Chan (α : Type*) where
  cap : Nat
  buf : List α
  closed : Bool
  fits : buf.length ≤ cap

namespace Chan

variable {α : Type*}

/-- A new open channel. -/
def make (cap : Nat) : Chan α := ⟨cap, [], false, Nat.zero_le cap⟩

def send (c : Chan α) (x : α) : Outcome (Chan α) :=
  if c.closed then .panics
  else if h : c.buf.length < c.cap then
    .done { c with
      buf := c.buf ++ [x]
      fits := by
        rw [List.length_append, List.length_singleton]
        omega }
  else .blocked

/-- The received value is `none` when the channel is closed and drained. -/
def recv (c : Chan α) : Outcome (Option α × Chan α) :=
  match h : c.buf with
  | x :: rest =>
      .done (some x, { c with
        buf := rest
        fits := by
          have := c.fits
          rw [h, List.length_cons] at this
          omega })
  | [] => if c.closed then .done (none, c) else .blocked

def close (c : Chan α) : Outcome (Chan α) :=
  if c.closed then .panics else .done { c with closed := true }

/-- An open channel in which a send has to wait. -/
def Full (c : Chan α) : Prop := c.closed = false ∧ c.buf.length = c.cap

instance (c : Chan α) : Decidable c.Full := inferInstanceAs (Decidable (_ ∧ _))

@[simp] theorem make_buf (cap : Nat) : (make cap : Chan α).buf = [] := rfl

@[simp] theorem make_closed (cap : Nat) : (make cap : Chan α).closed = false := rfl

@[simp] theorem make_cap (cap : Nat) : (make cap : Chan α).cap = cap := rfl

variable {c c' : Chan α}

theorem send_done {x : α} (h : c.send x = .done c') :
    c.closed = false ∧ c.buf.length < c.cap ∧
      c'.buf = c.buf ++ [x] ∧ c'.cap = c.cap ∧ c'.closed = false := by
  unfold send at h
  split at h
  · cases h
  · rename_i hopen
    have hopen : c.closed = false := by simpa using hopen
    split at h
    · rename_i hroom
      cases h
      exact ⟨hopen, hroom, rfl, rfl, hopen⟩
    · cases h

@[simp] theorem send_panics_iff {x : α} : c.send x = .panics ↔ c.closed = true := by
  unfold send
  split
  · rename_i hclosed
    simpa using hclosed
  · rename_i hopen
    split <;> simpa using hopen

/-- A receive takes the oldest value, or finds the channel closed and drained. -/
theorem recv_done {r : Option α} (h : c.recv = .done (r, c')) :
    (∃ x, r = some x ∧ c.buf = x :: c'.buf ∧ c'.cap = c.cap ∧ c'.closed = c.closed) ∨
      (r = none ∧ c' = c ∧ c.buf = [] ∧ c.closed = true) := by
  unfold recv at h
  split at h
  · rename_i x rest hbuf
    cases h
    exact Or.inl ⟨x, rfl, hbuf, rfl, rfl⟩
  · rename_i hbuf
    split at h
    · rename_i hclosed
      cases h
      exact Or.inr ⟨rfl, rfl, hbuf, hclosed⟩
    · cases h

theorem recv_some {x : α} (h : c.recv = .done (some x, c')) :
    c.buf = x :: c'.buf ∧ c'.cap = c.cap ∧ c'.closed = c.closed := by
  rcases recv_done h with ⟨y, hy, hbuf, hcap, hclosed⟩ | ⟨hr, _⟩
  · cases hy
    exact ⟨hbuf, hcap, hclosed⟩
  · cases hr

/-- A receive finds the oldest value. -/
theorem recv_of_cons {x : α} {rest : List α} (h : c.buf = x :: rest) :
    ∃ c', c.recv = .done (some x, c') ∧ c'.buf = rest ∧ c'.cap = c.cap ∧ c'.closed = c.closed := by
  obtain ⟨cap, buf, closed, fits⟩ := c
  dsimp only at h
  subst h
  exact ⟨_, rfl, rfl, rfl, rfl⟩

theorem recv_blocked_iff : c.recv = .blocked ↔ c.buf = [] ∧ c.closed = false := by
  unfold recv
  split
  · rename_i x rest hbuf
    simp [hbuf]
  · rename_i hbuf
    split <;> simp [*]

theorem recv_ne_panics : c.recv ≠ .panics := by
  unfold recv
  split
  · nofun
  · split <;> nofun

/-- A channel from which no value can be received is empty. -/
theorem buf_nil_of_recv (h : ∀ x c', c.recv ≠ .done (some x, c')) : c.buf = [] := by
  by_contra hne
  obtain ⟨x, rest, hbuf⟩ := List.exists_cons_of_ne_nil hne
  obtain ⟨c', hrecv, _⟩ := recv_of_cons hbuf
  exact h x c' hrecv

theorem close_done (h : c.close = .done c') :
    c.closed = false ∧ c'.buf = c.buf ∧ c'.cap = c.cap ∧ c'.closed = true := by
  unfold close at h
  split at h
  · cases h
  · rename_i hopen
    cases h
    exact ⟨by simpa using hopen, rfl, rfl, rfl⟩

@[simp] theorem close_panics_iff : c.close = .panics ↔ c.closed = true := by
  unfold close
  split
  · rename_i hclosed
    simpa using hclosed
  · rename_i hopen
    simpa using hopen

theorem close_ne_blocked : c.close ≠ .blocked := by
  unfold close
  split <;> nofun

theorem closed_of_recv {r : Option α} (h : c.recv = .done (r, c')) : c'.closed = c.closed := by
  rcases recv_done h with ⟨_, _, _, _, hclosed⟩ | ⟨_, rfl, _⟩
  · exact hclosed
  · rfl

theorem closed_of_send {x : α} (h : c.send x = .done c') : c'.closed = c.closed := by
  obtain ⟨hopen, _, _, _, hopen'⟩ := send_done h
  rw [hopen, hopen']

/-- A receive takes off the head, if there is one. -/
theorem head_of_recv {r : Option α} (h : c.recv = .done (r, c')) :
    c.buf.head?.toList ++ c'.buf = c.buf := by
  rcases recv_done h with ⟨x, _, hbuf, _⟩ | ⟨_, rfl, hbuf, _⟩
  · rw [hbuf]
    rfl
  · rw [hbuf]
    rfl

theorem drained_of_recv {r : Option α} (h : c.recv = .done (r, c')) (hbuf : c.buf = []) :
    c'.buf = [] := by
  have hall := head_of_recv h
  rw [hbuf] at hall
  exact (List.append_eq_nil_iff.mp hall).2

/-- A send on an open channel with room completes. -/
theorem send_of_room {x : α} (hopen : c.closed = false) (hroom : c.buf.length < c.cap) :
    ∃ c', c.send x = .done c' := by
  unfold send
  rw [if_neg (by simp [hopen]), dif_pos hroom]
  exact ⟨_, rfl⟩

theorem send_blocked_iff {x : α} : c.send x = .blocked ↔ c.Full := by
  have hfits := c.fits
  unfold send Full
  split
  · rename_i hclosed
    simp [hclosed]
  · rename_i hopen
    split
    · rename_i hroom
      have hne := Nat.ne_of_lt hroom
      simp [hne]
    · rename_i hroom
      have heq : c.buf.length = c.cap := Nat.le_antisymm hfits (Nat.le_of_not_lt hroom)
      simpa [heq] using hopen

/-- A receive leaves room, or finds the channel closed. -/
theorem not_full_of_recv {r : Option α} (h : c.recv = .done (r, c')) : ¬c'.Full := by
  rintro ⟨hopen, hfull⟩
  rcases recv_done h with ⟨x, _, hbuf, hcap, _⟩ | ⟨_, rfl, _, hclosed⟩
  · have hfits := c.fits
    rw [hbuf, List.length_cons] at hfits
    omega
  · rw [hclosed] at hopen
    cases hopen

theorem not_full_of_close (h : c.close = .done c') : ¬c'.Full := by
  rintro ⟨hopen, _⟩
  rw [(close_done h).2.2.2] at hopen
  cases hopen

/-- A value sent on an empty open channel comes out of it. -/
theorem send_recv {x : α} (hopen : c.closed = false) (hempty : c.buf = []) (hcap : 0 < c.cap) :
    ∃ c', c.send x = .done c' ∧ c'.recv = .done (some x, c) := by
  obtain ⟨cap, buf, closed, fits⟩ := c
  dsimp only at hopen hempty hcap
  subst hopen hempty
  exact ⟨⟨cap, [x], false, hcap⟩, by simp [send, hcap], rfl⟩

end Chan

end Interleave
