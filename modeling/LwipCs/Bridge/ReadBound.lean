import LwipCs.Bridge.Panics
import LwipCs.Bridge.ReadComplete

/-!
# The buffer of `Read`

`Read` copies a whole chunk or panics. Its message asks for a buffer of 1518 bytes, but a chunk
is what one receive callback delivered: a chain of several segments, or a reassembled
datagram.
-/

namespace LwipCs

open Interleave

/-- The size that the message of `Read` asks for. -/
def expected : Nat := 1518

/-- The next step of the `Read` of `th` takes a chunk from its channel. -/
def Sys.Takes (s : Sys) (th : Tid) (p : PcbId) (len : Nat) (data : Bytes) : Prop :=
  ∃ r ch, s.threads th = .read p len (.recv r) ∧ (s.chans r).recv = .done (some data, ch) ∧
    data ≠ []

/-- What `Read` took in `u` it has returned by `s`, or it is about to, and all of it. -/
def Handed (u s : Sys) (th : Tid) (p : PcbId) (len : Nat) (data : Bytes) : Prop :=
  Event.readOk th p data ∈ s.trace.drop u.trace.length ∨
    s.threads th = .read p len (.credit data)

/-- With a buffer of the size `Read` neither panics nor drops a byte of a chunk. -/
structure ReadsWhole (tr : List (Sys × Act)) (s : Sys) : Prop where
  handed : ∀ u th p len data, (u, Act.go th) ∈ tr → u.Takes th p len data → expected ≤ len →
    Handed u s th p len data
  panic : s.panic = some .bufferTooSmall →
    ∃ u th p len data, (u, Act.go th) ∈ tr ∧ u.Takes th p len data ∧ len < expected

/-- A chunk taken with a buffer of the size fits the buffer. -/
def Fits (s : Sys) : Act → Prop
  | .go th => ∀ p len data, s.Takes th p len data → expected ≤ len → data.length ≤ len
  | _ => True

variable {cfg : Config} {s t u : Sys} {o : Outcomes} {a : Act}

/-! ### A chunk taken by `Read` -/

variable {th : Tid} {p : PcbId} {len : Nat} {data : Bytes}

theorem mem_drop_snoc {ev : Event} (h : u.trace <+: s.trace) :
    ev ∈ (s.trace ++ [ev]).drop u.trace.length := by
  rw [List.drop_append_of_le_length h.length_le]
  exact List.mem_append_right _ List.mem_cons_self

/-- A taken chunk is handed on whole or the process ends. -/
theorem Sys.Takes.step (htakes : s.Takes th p len data) (h : Step cfg s (.go th) t) :
    (data.length ≤ len ∧ Handed s t th p len data) ∨
      (len < data.length ∧ ¬Handed s t th p len data ∧ t.panic = some .bufferTooSmall) := by
  obtain ⟨r, ch, hth, hrecv, hdata⟩ := htakes
  cases h with
  | read hread h =>
      rw [hth] at hread
      cases hread
      cases h with
      | nothing hrecv' hnil =>
          rw [hrecv] at hrecv'
          cases hrecv'
          rcases hnil with hnil | hnil <;> cases hnil
          exact absurd rfl hdata
      | tooSmall hrecv' hlen =>
          rw [hrecv] at hrecv'
          cases hrecv'
          refine Or.inr ⟨hlen, ?_, rfl⟩
          rintro (hin | hcredit)
          · rw [List.drop_length] at hin
            cases hin
          · rw [hth] at hcredit
            cases hcredit
      | chunk hrecv' _ hlen _ =>
          rw [hrecv] at hrecv'
          cases hrecv'
          exact Or.inl ⟨hlen, Or.inr (Function.update_self ..)⟩
      | datagram hrecv' _ hlen _ =>
          rw [hrecv] at hrecv'
          cases hrecv'
          exact Or.inl ⟨hlen, Or.inl (mem_drop_snoc List.prefix_rfl)⟩
  | write hwrite _ => cases hth.symm.trans hwrite
  | close hclose _ => cases hth.symm.trans hclose
  | closed hclosed => cases hth.symm.trans hclosed
  | closePost hpost _ => cases hth.symm.trans hpost
  | intercept hinter _ => cases hth.symm.trans hinter

/-- What is in the hands of `Read` stays there until it is returned. -/
theorem Handed.step (hhanded : Handed u s th p len data) (hsince : u.trace <+: s.trace)
    (h : Step cfg s a t) : Handed u t th p len data := by
  rcases hhanded with hin | hth
  · obtain ⟨more, htrace⟩ := h.trace_extends
    rw [Handed, ← htrace, List.drop_append_of_le_length hsince.length_le]
    exact Or.inl (List.mem_append_left _ hin)
  · by_cases hgo : a = .go th
    · subst hgo
      left
      cases h with
      | read hread h =>
          rw [hth] at hread
          cases hread
          cases h with
          | credit _ => exact mem_drop_snoc hsince
      | write hwrite _ => cases hth.symm.trans hwrite
      | close hclose _ => cases hth.symm.trans hclose
      | closed hclosed => cases hth.symm.trans hclosed
      | closePost hpost _ => cases hth.symm.trans hpost
      | intercept hinter _ => cases hth.symm.trans hinter
    · have hbusy : s.threads th ≠ .idle := by
        rw [hth]
        nofun
      exact Or.inr ((h.thread_eq hgo hbusy).trans hth)

/-- Only `Read` finds its buffer too small. -/
theorem Step.bufferTooSmall (h : Step cfg s a t) (hrunning : s.panic = none)
    (hpanic : t.panic = some .bufferTooSmall) : ∃ th p len data,
      a = .go th ∧ s.Takes th p len data ∧ len < data.length := by
  cases h.fails hrunning hpanic with
  | @tooSmall th p len r ch data hth hrecv hlen =>
      refine ⟨th, p, len, data, rfl, ⟨r, ch, hth, hrecv, ?_⟩, hlen⟩
      rintro rfl
      exact absurd hlen (Nat.not_lt_zero _)

theorem run_trace_extends {tr : List (Sys × Act)} (hrun : (bridge cfg).Run tr s) :
    ∀ x ∈ tr, x.1.trace <+: s.trace := by
  induction hrun with
  | start =>
      intro x hx
      cases hx
  | step hrun hstep ih =>
      have hmore := (step_cases (reachable_inOrder hrun.reachable) hstep).trace_extends
      intro x hx
      rcases List.mem_append.mp hx with hx | hx
      · exact (ih x hx).trans hmore
      · rw [List.mem_singleton.mp hx]
        exact hmore

/-- At the end of the run a chunk that fitted is handed on, and one that did not has
ended the process. -/
theorem run_taken {tr : List (Sys × Act)} (hrun : (bridge cfg).Run tr s)
    (hin : (u, Act.go th) ∈ tr) (htakes : u.Takes th p len data) :
    (data.length ≤ len ∧ Handed u s th p len data) ∨
      (len < data.length ∧ ¬Handed u s th p len data ∧ s.panic = some .bufferTooSmall) := by
  induction hrun with
  | start => cases hin
  | step hrun hstep ih =>
      have hcases := step_cases (reachable_inOrder hrun.reachable) hstep
      rcases List.mem_append.mp hin with hin | hin
      · rcases ih hin with ⟨hlen, hhanded⟩ | ⟨_, _, hpanic⟩
        · exact Or.inl ⟨hlen, hhanded.step (run_trace_extends hrun _ hin) hcases⟩
        · rw [step_running hstep] at hpanic
          cases hpanic
      · obtain ⟨rfl, rfl⟩ := Prod.mk.inj (List.mem_singleton.mp hin)
        exact htakes.step hcases

/-- `Read` returns every chunk that it takes with a buffer of the size, exactly if each of them
fits its buffer. -/
theorem run_readsWhole_iff {tr : List (Sys × Act)} (hrun : (bridge cfg).Run tr s) :
    ReadsWhole tr s ↔ Machine.Meets Fits tr := by
  constructor
  · rintro h ⟨u, a⟩ hin
    cases a with
    | go th =>
        intro p len data htakes hsize
        have hhanded := h.handed u th p len data hin htakes hsize
        rcases run_taken hrun hin htakes with ⟨hlen, _⟩ | ⟨_, hnot, _⟩
        · exact hlen
        · exact absurd hhanded hnot
    | _ => trivial
  · intro hfits
    constructor
    · intro u th p len data hin htakes hsize
      have hlen : data.length ≤ len := hfits _ hin p len data htakes hsize
      rcases run_taken hrun hin htakes with ⟨_, hhanded⟩ | ⟨hless, _⟩
      · exact hhanded
      · exact absurd hlen (Nat.not_le_of_lt hless)
    · intro hpanic
      cases hrun with
      | start => cases hpanic
      | @step tr u _ a hrun hstep =>
          have hcases := step_cases (reachable_inOrder hrun.reachable) hstep
          obtain ⟨th, p, len, data, rfl, htakes, hless⟩ :=
            hcases.bufferTooSmall (step_running hstep) hpanic
          refine ⟨u, th, p, len, data, by simp, htakes, ?_⟩
          by_contra hsize
          have hlen : data.length ≤ len :=
            (Machine.meets_snoc.mp hfits).2 p len data htakes (Nat.le_of_not_lt hsize)
          exact absurd hlen (Nat.not_le_of_lt hless)

namespace Schedule

/-- A chunk that `Read` is about to take fits its buffer. -/
def fits (s : Sys) : Act → Bool
  | .go th =>
      match s.threads th with
      | .read _ len (.recv r) =>
          match (s.chans r).recv with
          | .done (some data, _) => data.length ≤ len
          | _ => true
      | _ => true
  | _ => true

/-- Every `Read` has a buffer of the size. -/
def sized (s : Sys) : Act → Bool
  | .go th =>
      match s.threads th with
      | .read _ len _ => expected ≤ len
      | _ => true
  | _ => true

/-- So many bytes are delivered in one chain: 2048 where the second of two full segments comes
first. -/
def receiveChain (n : Nat) : List Act :=
  accept ++ [.callback (.recv 1 (some (List.replicate n 9)) .ok) fine, .loop fine, .loop fine]

end Schedule

/-- A chunk of 1518 bytes fits. -/
theorem run_readsWhole_full : ∃ tr s, (bridge Schedule.config).Run tr s ∧ ReadsWhole tr s ∧
    .readOk 0 0 (List.replicate 1518 9) ∈ s.trace := by
  obtain ⟨tr, s, hrun, hmeets, htest⟩ := Machine.exists_run_of_exec (bridge Schedule.config)
    Schedule.fits
    (Schedule.receiveChain 1518 ++ [.call 0 (.read 0 1518), .go 0, .go 0, .go 0, .go 0, .go 0])
    (fun s => .readOk 0 0 (List.replicate 1518 9) ∈ s.trace) (by decide +kernel)
  refine ⟨tr, s, hrun, (run_readsWhole_iff hrun).mpr (hmeets.mono ?_), of_decide_eq_true htest⟩
  intro s a hfits
  cases a with
  | go th =>
      rintro p len data ⟨r, ch, hth, hrecv, _⟩ _
      simpa [Schedule.fits, hth, hrecv] using hfits
  | _ => trivial

/-- Two segments of 1024 bytes do not, and the process ends. -/
theorem not_readsWhole_two : ∃ tr s, (bridge Schedule.config).Run tr s ∧
    s.panic = some .bufferTooSmall ∧ ¬ReadsWhole tr s := by
  obtain ⟨tr, s, hrun, hmeets, htest⟩ := Machine.exists_run_of_exec (bridge Schedule.config)
    Schedule.sized
    (Schedule.receiveChain 2048 ++ [.call 0 (.read 0 1518), .go 0, .go 0, .go 0, .go 0])
    (fun s => s.panic = some .bufferTooSmall) (by decide +kernel)
  have hpanic : s.panic = some .bufferTooSmall := of_decide_eq_true htest
  refine ⟨tr, s, hrun, hpanic, ?_⟩
  intro h
  obtain ⟨u, th, p, len, data, hin, ⟨r, ch, hth, _⟩, hless⟩ := h.panic hpanic
  have hsized : expected ≤ len := by simpa [Schedule.sized, hth] using hmeets _ hin
  exact absurd hsized (Nat.not_le_of_lt hless)

end LwipCs
