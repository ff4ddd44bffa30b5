import LwipCs.Interleave.Progress
import LwipCs.Interleave.Total
import LwipCs.Csocks.Iteration

/-!
# The DNS processor comes to rest

Between two answers from outside the loops and the closing goroutines have boundedly many statements
left. Where they are through, a loop waits for its client or for the next processor, or for room in
the queue of a connection. That queue then holds as many queries of the same client, none of which
the resolver has read, so no client ever waits for another.
-/

namespace LwipCs

namespace Csocks

open Interleave

/-- Statements of the processor and of `Close`; the clients, the next processor and the resolver
are outside. -/
def Act.own : Act → Bool
  | .target .. | .lookup _ | .create _ | .store _ | .push _ | .closeStep _ => true
  | _ => false

def CloserPc.left : CloserPc → Nat
  | .idle => 0
  | .delete _ => 1
  | .closeQueue _ => 2
  | .mark _ => 3
  | .test _ => 4

/-- The statements left to all loops and closing goroutines; a process that runs may panic yet. -/
def Sys.Left (s : Sys) (n : Nat) : Prop :=
  ∃ m k, Total (fun r => (s.loops r).left) m ∧ Total (fun i => (s.closers i).left) k ∧
    n = m + k + if s.panic = none then 1 else 0

/-- What a loop waits for when it does not move. -/
inductive Sys.LoopRests (s : Sys) (r : ClientId) : Prop
  | off (hpc : s.loops r = .off)
  /-- a message of the client -/
  | read (hpc : s.loops r = .read)
  /-- the return of `Next.ProcConn` -/
  | calling {q : Query} {c : DnsId} (hpc : s.loops r = .calling q c)
  /-- room, where the resolver has not read 1024 queries of the client -/
  | push {q : Query} {c : DnsId} {o : DNSConn} (hpc : s.loops r = .push q c)
      (ho : s.objs c = some o) (hopen : o.readQueued.closed = false)
      (hfull : o.readQueued.buf.length = 1024) (howner : ∀ q' ∈ o.readQueued.buf, q'.client = r)

/-- Every loop waits for the outside, and no goroutine is inside `Close`. -/
structure Sys.Rests (s : Sys) : Prop where
  loops : ∀ r, s.LoopRests r
  closers : ∀ i, s.closers i = .idle

variable {lib : Lib} {s t : Sys} {a : Act} {n : Nat} {r : ClientId} {c : DnsId} {o : DNSConn}

/-! ### Statements left -/

theorem left_loop {pc pc' : ProcPc} (h : s.Left n) (hpc : s.loops r = pc)
    (hloops : t.loops = Function.update s.loops r pc') (hclosers : t.closers = s.closers)
    (hpanic : t.panic = s.panic) (hless : pc'.left < pc.left) : ∃ m, m < n ∧ t.Left m := by
  obtain ⟨m, k, hm, hk, rfl⟩ := h
  have hle : (s.loops r).left ≤ m := hm.le r
  refine ⟨_, ?_, m - (s.loops r).left + pc'.left, k, ?_, ?_, rfl⟩
  · rw [hpc] at hle ⊢
    rw [hpanic]
    omega
  · rw [hloops]
    exact hm.apply_update ProcPc.left r pc'
  · rwa [hclosers]

theorem left_closer {i : Nat} {pc pc' : CloserPc} (h : s.Left n) (hpc : s.closers i = pc)
    (hclosers : t.closers = Function.update s.closers i pc') (hloops : t.loops = s.loops)
    (hpanic : t.panic = s.panic) (hless : pc'.left < pc.left) : ∃ m, m < n ∧ t.Left m := by
  obtain ⟨m, k, hm, hk, rfl⟩ := h
  have hle : (s.closers i).left ≤ k := hk.le i
  refine ⟨_, ?_, m, k - (s.closers i).left + pc'.left, ?_, ?_, rfl⟩
  · rw [hpc] at hle ⊢
    rw [hpanic]
    omega
  · rwa [hloops]
  · rw [hclosers]
    exact hk.apply_update CloserPc.left i pc'

theorem left_panic (h : s.Left n) (halive : s.panic = none) (hloops : t.loops = s.loops)
    (hclosers : t.closers = s.closers) (hpanic : t.panic ≠ none) : ∃ m, m < n ∧ t.Left m := by
  obtain ⟨m, k, hm, hk, rfl⟩ := h
  refine ⟨_, ?_, m, k, ?_, ?_, rfl⟩
  · rw [if_pos halive, if_neg hpanic]
    omega
  · rwa [hloops]
  · rwa [hclosers]

/-- Every statement leaves less to do. -/
theorem Step.left_lt (h : Step lib s a t) (hown : a.own = true) (halive : s.panic = none)
    (hn : s.Left n) : ∃ m, m < n ∧ t.Left m := by
  cases h with
  | found hpc => exact left_loop hn hpc rfl rfl rfl (by simp [ProcPc.left])
  | hit hpc _ => exact left_loop hn hpc rfl rfl rfl (by simp [ProcPc.left])
  | missed hpc _ => exact left_loop hn hpc rfl rfl rfl (by simp [ProcPc.left])
  | refused hpc => exact left_loop hn hpc rfl rfl rfl (by simp [ProcPc.left])
  | opened hpc _ => exact left_loop hn hpc rfl rfl rfl (by simp [ProcPc.left])
  | stored hpc _ => exact left_loop hn hpc rfl rfl rfl (by simp [ProcPc.left])
  | pushed hpc _ _ => exact left_loop hn hpc rfl rfl rfl (by simp [ProcPc.left])
  | pushClosed _ _ _ => exact left_panic hn halive rfl rfl (by simp)
  | tested hpc _ _ => exact left_closer hn hpc rfl rfl rfl (by simp [CloserPc.left])
  | testedClosed hpc => exact left_closer hn hpc rfl rfl rfl (by simp [CloserPc.left])
  | marked hpc _ => exact left_closer hn hpc rfl rfl rfl (by simp [CloserPc.left])
  | queueClosed hpc _ _ => exact left_closer hn hpc rfl rfl rfl (by simp [CloserPc.left])
  | closedTwice _ _ _ => exact left_panic hn halive rfl rfl (by simp)
  | deleted hpc _ => exact left_closer hn hpc rfl rfl rfl (by simp [CloserPc.left])
  | _ => cases hown

theorem lowers_left (lib : Lib) : (csocks lib).Lowers Act.own Sys.Left := by
  intro s t a n _ hown hstep hn
  exact (Sys.step_cases hstep).left_lt hown (Sys.alive_of_step hstep).1 hn

/-- Only finitely many loops and goroutines are under way. -/
theorem reachable_left (h : (csocks lib).Reachable s) : ∃ n, s.Left n := by
  have htotal : (∃ m, Total (fun r => (s.loops r).left) m) ∧
      ∃ k, Total (fun i => (s.closers i).left) k := by
    refine Machine.Reachable.invariant
      (I := fun s : Sys => (∃ m, Total (fun r => (s.loops r).left) m) ∧
        ∃ k, Total (fun i => (s.closers i).left) k) h ⟨⟨0, Total.zero⟩, 0, Total.zero⟩ ?_
    rintro s a t ⟨⟨m, hm⟩, k, hk⟩ hstep
    have loop : ∀ r pc, ∃ m, Total (fun u => (Function.update s.loops r pc u).left) m :=
      fun r pc => ⟨_, hm.apply_update ProcPc.left r pc⟩
    have closer : ∀ i pc, ∃ k, Total (fun u => (Function.update s.closers i pc u).left) k :=
      fun i pc => ⟨_, hk.apply_update CloserPc.left i pc⟩
    cases Sys.step_cases hstep <;>
      first
        | exact ⟨⟨m, hm⟩, k, hk⟩
        | exact ⟨loop .., k, hk⟩
        | exact ⟨⟨m, hm⟩, closer ..⟩
  obtain ⟨⟨m, hm⟩, k, hk⟩ := htotal
  exact ⟨_, m, k, hm, hk, rfl⟩

/-! ### Connections -/

/-- The connection a goroutine is closing. -/
def CloserPc.conn : CloserPc → Option DnsId
  | .idle => none
  | .test c | .mark c | .closeQueue c | .delete c => some c

/-- Queues have room for 1024 queries, and what is being closed was made. -/
structure Roomy (objs : DnsId → Option DNSConn) (closers : Nat → CloserPc) : Prop where
  cap : ∀ c o, objs c = some o → o.readQueued.cap = 1024
  closing : ∀ i c, (closers i).conn = some c → (objs c).isSome

namespace Roomy

variable {objs : DnsId → Option DNSConn} {closers : Nat → CloserPc}

theorem setConn (h : Roomy objs closers) (hcap : o.readQueued.cap = 1024) :
    Roomy (Function.update objs c (some o)) closers := by
  constructor
  · intro c' x hx
    by_cases heq : c' = c
    · subst heq
      rw [Function.update_self] at hx
      cases hx
      exact hcap
    · rw [Function.update_of_ne heq] at hx
      exact h.cap c' x hx
  · intro i c' hc'
    by_cases heq : c' = c
    · subst heq
      rw [Function.update_self]
      rfl
    · rw [Function.update_of_ne heq]
      exact h.closing i c' hc'

theorem goto {i : Nat} {pc : CloserPc} (h : Roomy objs closers)
    (hpc : ∀ c, pc.conn = some c → (objs c).isSome) :
    Roomy objs (Function.update closers i pc) := by
  refine ⟨h.cap, ?_⟩
  intro i' c hc
  by_cases heq : i' = i
  · subst heq
    rw [Function.update_self] at hc
    exact hpc c hc
  · rw [Function.update_of_ne heq] at hc
    exact h.closing i' c hc

end Roomy

theorem step_roomy (h : Roomy s.objs s.closers) (hstep : Step lib s a t) :
    Roomy t.objs t.closers := by
  have same : ∀ {i : Nat} {pc pc' : CloserPc}, s.closers i = pc → pc'.conn = pc.conn →
      Roomy s.objs (Function.update s.closers i pc') := by
    rintro i pc pc' rfl hconn
    apply h.goto
    intro c hc
    exact h.closing i c (hconn ▸ hc)
  cases hstep with
  | opened => exact h.setConn rfl
  | pushed _ ho hsend =>
      apply h.setConn
      rw [(Chan.send_done hsend).2.2.2.1]
      exact h.cap _ _ ho
  | taken ho hrecv =>
      apply h.setConn
      rw [(Chan.recv_some hrecv).2.1]
      exact h.cap _ _ ho
  | close _ hsome =>
      apply h.goto
      rintro _ ⟨⟩
      exact hsome
  | tested hpc => exact same hpc rfl
  | testedClosed => exact h.goto nofun
  | @marked i c o _ ho =>
      refine (h.setConn ?_).goto ?_
      · show o.readQueued.cap = 1024
        exact h.cap c o ho
      · rintro _ ⟨⟩
        rw [Function.update_self]
        rfl
  | queueClosed _ ho hclose =>
      refine (h.setConn ?_).goto ?_
      · rw [(Chan.close_done hclose).2.2.1]
        exact h.cap _ _ ho
      · rintro _ ⟨⟩
        rw [Function.update_self]
        rfl
  | deleted => exact h.goto nofun
  | _ => exact h

theorem reachable_roomy (h : (csocks lib).Reachable s) : Roomy s.objs s.closers := by
  refine Machine.Reachable.invariant (I := fun s : Sys => Roomy s.objs s.closers) h
    ⟨nofun, nofun⟩ ?_
  intro s a t hs hstep
  exact step_roomy hs (Sys.step_cases hstep)

/-! ### Where nothing moves -/

/-- A goroutine inside `Close` can go on. -/
theorem closeStep_ne_none (h : Roomy s.objs s.closers) {i : Nat} (hpc : s.closers i ≠ .idle) :
    s.closeStep i ≠ none := by
  have made : ∀ c, (s.closers i).conn = some c → ∃ o, s.objs c = some o :=
    fun c hc => Option.isSome_iff_exists.mp (h.closing i c hc)
  unfold Sys.closeStep
  cases hat : s.closers i with
  | idle => exact absurd hat hpc
  | closeQueue c =>
      obtain ⟨o, ho⟩ := made c (by rw [hat]; rfl)
      simp only [ho, Option.bind_some]
      cases hclose : o.readQueued.close with
      | done ch => simp
      | panics => simp
      | blocked => exact absurd hclose Chan.close_ne_blocked
  | _ =>
      obtain ⟨o, ho⟩ := made _ (by rw [hat]; rfl)
      simp [ho]

/-- A loop that cannot go on waits. -/
theorem loopRests (hreach : (csocks lib).Reachable s)
    (hstill : ∀ a, a.own = true → s.act lib a = none) (r : ClientId) : s.LoopRests r := by
  have hs := reachable_inOrder hreach
  cases hpc : s.loops r with
  | off => exact .off hpc
  | read => exact .read hpc
  | calling q c => exact .calling hpc
  | target q name =>
      have hnone : s.target r [] = none := hstill (.target r []) rfl
      simp [Sys.target, hpc] at hnone
  | lookup q target =>
      have hnone : s.lookup r = none := hstill (.lookup r) rfl
      simp only [Sys.lookup, hpc] at hnone
      split at hnone <;> cases hnone
  | create q target =>
      obtain ⟨u, pc, hcreate, _⟩ := create_goes lib hpc
      have hnone : s.create lib r = none := hstill (.create r) rfl
      rw [hcreate] at hnone
      cases hnone
  | store q c =>
      obtain ⟨o, ho, _⟩ := hs.held r c (by rw [hpc]; rfl)
      have hnone : s.store r = none := hstill (.store r) rfl
      simp [Sys.store, hpc, ho] at hnone
  | push q c =>
      obtain ⟨o, ho, hbase⟩ := hs.held r c (by rw [hpc]; rfl)
      have hnone : s.push r = none := hstill (.push r) rfl
      simp only [Sys.push, hpc, ho, Option.bind_some] at hnone
      cases hsend : o.readQueued.send q with
      | done ch =>
          rw [hsend] at hnone
          cases hnone
      | panics =>
          rw [hsend] at hnone
          cases hnone
      | blocked =>
          obtain ⟨hopen, hfull⟩ := Chan.send_blocked_iff.mp hsend
          refine .push hpc ho hopen (hfull.trans ((reachable_roomy hreach).cap c o ho)) ?_
          intro q' hq'
          -- what waits in the queue was queued for the client of the connection
          have hisolated := reachable_isolated hreach
          have hqueued : .queued c q' ∈ s.trace := by
            apply mem_queuedOn.mp
            rw [← hisolated.fifo c o ho]
            exact List.mem_append_right _ hq'
          obtain ⟨o', ho', howner, _⟩ := hisolated.owner c q' hqueued
          rw [ho] at ho'
          cases ho'
          rw [← howner, hbase]

/-- The loops and the closing goroutines take boundedly many statements between two answers from
outside, whatever their order. From wherever they have got to some more lead to a state in which the
process has panicked, or no goroutine is inside `Close` and each loop waits for its client, for the
next processor, or for the resolver to read a queue full of the client's own queries. -/
theorem run_dnsRests {tr : List (Sys × Act)} (hrun : (csocks lib).Run tr s) :
    ∃ n, ∀ more t, (csocks lib).Run (tr ++ more) t → Machine.AllOwn Act.own more →
      more.length ≤ n ∧ ∃ rest u, (csocks lib).Run (tr ++ more ++ rest) u ∧
        Machine.AllOwn Act.own rest ∧ (u.panic = none → u.Rests) := by
  obtain ⟨n, hn⟩ := reachable_left hrun.reachable
  refine ⟨n, fun more t hmore hown => ?_⟩
  obtain ⟨m, hle, hm⟩ := hrun.bounded (lowers_left lib) hn hmore hown
  obtain ⟨rest, u, hrest, hall, hstill⟩ := hmore.rests (lowers_left lib) hm
  refine ⟨by omega, rest, u, hrest, hall, fun halive => ?_⟩
  have hstill : ∀ a, a.own = true → u.act lib a = none := by
    intro a ha
    have hnone : u.step lib a = none := hstill a ha
    simpa only [Sys.step, halive] using hnone
  refine ⟨loopRests hrest.reachable hstill, fun i => ?_⟩
  by_contra hclosing
  exact closeStep_ne_none (reachable_roomy hrest.reachable) hclosing (hstill (.closeStep i) rfl)

/-- From a query under way and a `Close`. -/
theorem run_dnsRests_two : ∃ tr s, (csocks sampleLib).Run tr s ∧ s.panic = none ∧
    s.loops 0 = .push ⟨0, 0, question⟩ 0 ∧ s.closers 0 = .test 0 ∧
    ∃ n, ∀ more t, (csocks sampleLib).Run (tr ++ more) t → Machine.AllOwn Act.own more →
      more.length ≤ n ∧ ∃ rest u, (csocks sampleLib).Run (tr ++ more ++ rest) u ∧
        Machine.AllOwn Act.own rest ∧ (u.panic = none → u.Rests) := by
  obtain ⟨tr, s, hrun, _, htest⟩ := Machine.exists_run_of_exec (csocks sampleLib)
    (fun _ _ => true)
    [.accept .udp ⟨[1, 1, 1, 1], Or.inl rfl⟩ 53 4096, .recv 0 (some question),
      .target 0 ['d', 'n', 's', ':', '/', '/', 'l'], .lookup 0, .create 0, .returned 0 true,
      .store 0, .close 0 0]
    (fun s => s.panic = none ∧ s.loops 0 = .push ⟨0, 0, question⟩ 0 ∧ s.closers 0 = .test 0)
    (by decide)
  obtain ⟨halive, hloop, hcloser⟩ := of_decide_eq_true htest
  exact ⟨tr, s, hrun, halive, hloop, hcloser, run_dnsRests hrun⟩

end Csocks

end LwipCs
