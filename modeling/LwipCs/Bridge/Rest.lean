import LwipCs.Interleave.Progress
import LwipCs.Interleave.Total
import LwipCs.Bridge.Still

/-!
# The process comes to rest

Left to itself the process does not run on for ever. A method has so many statements left, the loop
has so many for what it has in hand, and for each entry of a queue it will have some more; a
statement that posts an entry stands above what the entry costs. So from every reachable state the
steps of goroutines and loop, in whatever order, come to an end, where the process rests or has
panicked.
-/

namespace LwipCs

open Interleave

/-! ### Statements left -/

/-- A `Read` that returns a chunk posts an entry to `recvedQueue`. -/
def ReadPc.left : ReadPc → Nat
  | .inter => 7
  | .test => 6
  | .load => 5
  | .recv _ => 4
  | .credit _ => 3
  | .errRet => 1

/-- A `Write` posts an entry to `sendQueue`. -/
def WritePc.left : WritePc → Nat
  | .test => 9
  | .lock => 8
  | .enqueue => 7
  | .post => 5
  | .wait => 3
  | .unlock => 2
  | .ret => 1

/-- What follows `close` is counted as well, an entry in `closeQueue` or the rest of the handler. -/
def ClosePc.left : ClosePc → Nat
  | .lock => 8
  | .test => 7
  | .setErr => 6
  | .closeRecv => 5
  | .closeWait => 4
  | .unlock => 3

def InterPc.left : InterPc → Nat
  | .lock => 6
  | .test => 5
  | .set => 4
  | .closeOld => 3
  | .swap => 2
  | .unlock => 1

def Thread.left : Thread → Nat
  | .idle => 0
  | .read _ _ pc => pc.left
  | .write _ _ pc => pc.left
  | .close _ pc => pc.left
  | .closePost _ => 2
  | .intercept _ _ pc => pc.left

def LoopPc.left : LoopPc → Nat
  | .select => 0
  | .credit _ | .udpSend _ | .lwip => 1
  | .send _ | .netif | .done .. => 2
  | .push _ _ _ none => 3
  | .push _ _ _ (some _) => 2
  | .post _ => 3
  | .close _ pc _ _ _ => pc.left

/-- The statements left to the loop with what is queued; a process that runs may panic yet. -/
def Sys.loopLeft (s : Sys) : Nat :=
  2 * s.recvedQueue.buf.length + 3 * s.sendQueue.buf.length + s.closeQueue.buf.length +
    4 * s.inputQueue.buf.length + s.loop.left + if s.panic = none then 1 else 0

/-- The statements left to all goroutines and the loop. -/
def Sys.Left (s : Sys) (n : Nat) : Prop :=
  ∃ m, Total (fun t => (s.threads t).left) m ∧ n = m + s.loopLeft

variable {cfg : Config} {s t : Sys} {a : Act} {n : Nat}

/-- The loop moves, or the process panics. -/
theorem left_stay (h : s.Left n) (hthreads : t.threads = s.threads)
    (hless : t.loopLeft < s.loopLeft) : ∃ m, m < n ∧ t.Left m := by
  obtain ⟨m, htotal, rfl⟩ := h
  refine ⟨m + t.loopLeft, by omega, m, ?_, rfl⟩
  rw [hthreads]
  exact htotal

/-- A goroutine moves. -/
theorem left_go {i : Tid} {th th' : Thread} (h : s.Left n) (hth : s.threads i = th)
    (hthreads : t.threads = Function.update s.threads i th')
    (hless : th'.left + t.loopLeft < th.left + s.loopLeft) : ∃ m, m < n ∧ t.Left m := by
  obtain ⟨m, htotal, rfl⟩ := h
  have hle : (s.threads i).left ≤ m := htotal.le i
  refine ⟨m - (s.threads i).left + th'.left + t.loopLeft, ?_, _, ?_, rfl⟩
  · rw [hth] at hle ⊢
    omega
  · rw [hthreads]
    exact htotal.apply_update Thread.left i th'

/-! ### Steps -/

theorem length_of_send {α : Type} {c c' : Chan α} {x : α} (h : c.send x = .done c') :
    c'.buf.length = c.buf.length + 1 := by
  rw [(Chan.send_done h).2.2.1, List.length_append, List.length_singleton]

theorem length_of_recv {α : Type} {c c' : Chan α} {x : α} (h : c.recv = .done (some x, c')) :
    c.buf.length = c'.buf.length + 1 := by
  rw [(Chan.recv_some h).1, List.length_cons]

theorem ReadStep.left_lt {i : Tid} {p : PcbId} {len : Nat} {pc : ReadPc}
    (hth : s.threads i = .read p len pc) (h : ReadStep s i p len pc t) (hlive : s.panic = none)
    (hn : s.Left n) : ∃ m, m < n ∧ t.Left m := by
  cases h with
  | intercepted _ => exact left_stay hn rfl (by simp [Sys.loopLeft, hlive])
  | tooSmall _ _ => exact left_stay hn rfl (by simp [Sys.loopLeft, hlive])
  | credit hsend =>
      have hlen := length_of_send hsend
      apply left_go hn hth rfl
      simp only [Sys.loopLeft, Thread.left, ReadPc.left, hlen]
      omega
  | _ =>
      apply left_go hn hth rfl
      simp [Sys.loopLeft, Thread.left, ReadPc.left]

theorem WriteStep.left_lt {i : Tid} {p : PcbId} {w : WriteId} {pc : WritePc}
    (hth : s.threads i = .write p w pc) (h : WriteStep s i p w pc t) (hn : s.Left n) :
    ∃ m, m < n ∧ t.Left m := by
  cases h with
  | enqueue hsend =>
      have hlen := length_of_send hsend
      apply left_go hn hth rfl
      simp only [Sys.loopLeft, Thread.left, WritePc.left, hlen]
      omega
  | post hsend =>
      have hlen := length_of_send hsend
      apply left_go hn hth rfl
      simp only [Sys.loopLeft, Thread.left, WritePc.left, hlen]
      omega
  | _ =>
      apply left_go hn hth rfl
      simp [Sys.loopLeft, Thread.left, WritePc.left]

theorem InterceptStep.left_lt {i : Tid} {p : PcbId} {c : Nat} {pc : InterPc}
    (hth : s.threads i = .intercept p c pc) (h : InterceptStep s i p c pc t)
    (hlive : s.panic = none) (hn : s.Left n) : ∃ m, m < n ∧ t.Left m := by
  cases h with
  | closedOld _ => exact left_stay hn rfl (by simp [Sys.loopLeft, hlive])
  | twice _ =>
      apply left_go hn hth rfl
      simp [Sys.loopLeft, Thread.left, InterPc.left, hlive]
      omega
  | _ =>
      apply left_go hn hth rfl
      simp [Sys.loopLeft, Thread.left, InterPc.left]

/-- A statement of `close` brings its end nearer. It leaves the goroutines and the queues, wherever
the loop stands. -/
theorem CloseStep.left_lt {who : Actor} {p : PcbId} {pc pc' : ClosePc}
    (h : CloseStep s who p pc t (some pc')) :
    pc'.left < pc.left ∧ t.threads = s.threads ∧
      ∀ at', { t with loop := at' }.loopLeft ≤ { s with loop := at' }.loopLeft := by
  cases h <;> simp [ClosePc.left, Sys.loopLeft]

theorem LoopStep.left_lt {o : Outcomes} {pc : LoopPc} (hpc : s.loop = pc)
    (h : LoopStep cfg s o pc t) (hlive : s.panic = none) (hn : s.Left n) :
    ∃ m, m < n ∧ t.Left m := by
  cases h with
  | close hclose =>
      obtain ⟨hless, hthreads, hle⟩ := hclose.left_lt
      refine left_stay hn hthreads (Nat.lt_of_le_of_lt (hle _) ?_)
      simp only [Sys.loopLeft, hpc, LoopPc.left]
      omega
  | _ =>
      refine left_stay hn rfl ?_
      simp [Sys.loopLeft, hpc, LoopPc.left, ClosePc.left, hlive]

/-- Every step of the process itself leaves less to do. -/
theorem Step.left_lt (h : Step cfg s a t) (hown : a.own = true) (hlive : s.panic = none)
    (hn : s.Left n) : ∃ m, m < n ∧ t.Left m := by
  cases h with
  | read hth h => exact h.left_lt hth hlive hn
  | write hth h => exact h.left_lt hth hn
  | @close i p pc pc' s' hth h =>
      obtain ⟨hless, hthreads, hle⟩ := h.left_lt
      apply left_go hn hth (by rw [hthreads])
      have hsame : s'.loopLeft ≤ s.loopLeft := by
        have hstays : { s' with loop := s.loop } = s' := by rw [← h.loopKept.loop]
        have hloop := hle s.loop
        rwa [hstays] at hloop
      show pc'.left + s'.loopLeft < pc.left + s.loopLeft
      omega
  | closed hth =>
      apply left_go hn hth rfl
      simp [Sys.loopLeft, Thread.left, ClosePc.left]
  | closePost hth hsend =>
      have hlen := length_of_send hsend
      apply left_go hn hth rfl
      simp only [Sys.loopLeft, Thread.left, hlen]
      omega
  | intercept hth h => exact h.left_lt hth hlive hn
  | takeRecved hloop hrecv =>
      have hlen := length_of_recv hrecv
      refine left_stay hn rfl ?_
      simp only [Sys.loopLeft, hloop, LoopPc.left, hlen]
      omega
  | takeClose hloop hrecv _ =>
      have hlen := length_of_recv hrecv
      refine left_stay hn rfl ?_
      simp only [Sys.loopLeft, hlen]
      omega
  | takeCloseUdp hloop hrecv _ =>
      have hlen := length_of_recv hrecv
      refine left_stay hn rfl ?_
      simp only [Sys.loopLeft, hlen]
      omega
  | takeSend hloop hrecv =>
      have hlen := length_of_recv hrecv
      refine left_stay hn rfl ?_
      simp only [Sys.loopLeft, hloop, LoopPc.left, hlen]
      omega
  | takeInput hloop hrecv =>
      have hlen := length_of_recv hrecv
      refine left_stay hn rfl ?_
      simp only [Sys.loopLeft, hloop, LoopPc.left, hlen]
      omega
  | loop hpc h => exact h.left_lt hpc hlive hn
  | _ => cases hown

theorem lowers_left (cfg : Config) : (bridge cfg).Lowers Act.own Sys.Left := by
  intro s t a n hreach hown hstep hn
  have hcases := step_cases (reachable_inOrder hreach) hstep
  exact hcases.left_lt hown (step_running hstep) hn

/-! ### Runs -/

/-- Only finitely many goroutines are inside a method. -/
theorem reachable_left (h : (bridge cfg).Reachable s) : ∃ n, s.Left n := by
  have htotal : ∃ m, Total (fun t => (s.threads t).left) m := by
    refine Machine.Reachable.invariant_of
      (I := fun s : Sys => ∃ m, Total (fun t => (s.threads t).left) m) h reachable_inOrder
      ⟨0, Total.zero⟩ ?_
    rintro s t a horder _ ⟨m, htotal⟩ hstep
    have go : ∀ i th, ∃ m, Total (fun u => (Function.update s.threads i th u).left) m :=
      fun i th => ⟨_, htotal.apply_update Thread.left i th⟩
    have hcases := step_cases horder hstep
    cases hcases with
    | callRead _ _ => exact go ..
    | callWrite _ _ => exact go ..
    | callClose _ _ => exact go ..
    | callIntercept _ _ => exact go ..
    | read _ h => cases h <;> first | exact go .. | exact ⟨m, htotal⟩
    | write _ h => cases h <;> exact go ..
    | close _ h =>
        rw [h.left_lt.2.1]
        exact go ..
    | closed _ => exact go ..
    | closePost _ _ => exact go ..
    | intercept _ h => cases h <;> first | exact go .. | exact ⟨m, htotal⟩
    | loop _ h =>
        cases h with
        | close h => cases h <;> exact ⟨m, htotal⟩
        | _ => exact ⟨m, htotal⟩
    | callback _ h => cases h <;> exact ⟨m, htotal⟩
    | _ => exact ⟨m, htotal⟩
  obtain ⟨m, htotal⟩ := htotal
  exact ⟨_, m, htotal, rfl⟩

/-- Left to itself the process comes to rest. Its goroutines and its loop take boundedly many steps,
whatever their order, and from wherever they have got to some of them lead to a state in which the
process has panicked or rests. -/
theorem run_comesToRest {tr : List (Sys × Act)} (hrun : (bridge cfg).Run tr s) :
    ∃ n, ∀ more t, (bridge cfg).Run (tr ++ more) t → Machine.AllOwn Act.own more →
      more.length ≤ n ∧ ∃ rest u, (bridge cfg).Run (tr ++ more ++ rest) u ∧
        Machine.AllOwn Act.own rest ∧ (u.panic = none → u.Rests) := by
  obtain ⟨n, hn⟩ := reachable_left hrun.reachable
  refine ⟨n, fun more t hmore hown => ?_⟩
  obtain ⟨m, hle, hm⟩ := hrun.bounded (lowers_left cfg) hn hmore hown
  obtain ⟨rest, u, hrest, hall, hstill⟩ := hmore.rests (lowers_left cfg) hm
  refine ⟨by omega, rest, u, hrest, hall, fun hlive => ?_⟩
  exact run_rests hrest hlive hstill

/-- From two calls on an open connection. -/
theorem run_comesToRest_two : ∃ tr s, (bridge Schedule.config).Run tr s ∧ s.panic = none ∧
    s.threads 0 = .write 0 0 .test ∧ s.threads 1 = .close 0 .lock ∧
    ∃ n, ∀ more t, (bridge Schedule.config).Run (tr ++ more) t → Machine.AllOwn Act.own more →
      more.length ≤ n ∧ ∃ rest u, (bridge Schedule.config).Run (tr ++ more ++ rest) u ∧
        Machine.AllOwn Act.own rest ∧ (u.panic = none → u.Rests) := by
  obtain ⟨tr, s, hrun, _, htest⟩ := Machine.exists_run_of_exec (bridge Schedule.config)
    (fun _ _ => true)
    (Schedule.accept ++ [.call 0 (.write 0 [7]), .call 1 (.close 0)])
    (fun s => s.panic = none ∧ s.threads 0 = .write 0 0 .test ∧ s.threads 1 = .close 0 .lock)
    (by decide)
  obtain ⟨hlive, hwrite, hclose⟩ := of_decide_eq_true htest
  exact ⟨tr, s, hrun, hlive, hwrite, hclose, run_comesToRest hrun⟩

end LwipCs
