import LwipCs.Bridge.ReadComplete
import LwipCs.Echo.Link

/-!
# What comes back from the echo program

From `cs_tcp_raw_recv` through `recvQueued`, `Read`, `io.Copy`, `Write`, `sendQueue` and
`es->p` to `tcp_write`, the bytes of a connection stay in one line: what the echo program
writes to a connection are the first bytes it received on it, and the others are in one of
these places.
-/

namespace LwipCs

namespace Echo

open Interleave

variable {cfg : Config} {u : EchoSys} {p : PcbId} {tr : List (EchoSys × Act)}

/-- The bytes that `io.Copy` has read and no `Write` has taken the lock for. -/
def CopyPc.held (th : Thread) : CopyPc → Bytes
  | .write data => data
  | .writing data =>
      match th with
      | .write _ _ pc => if pc.locked then [] else data
      | _ => []
  | _ => []

theorem lockedChunks_isPrefix (h : Linked p u) (htype : (u.sys.pcbs p).type = .tcp) :
    lockedChunks p u.sys.trace <+: select (Event.readOn p) u.sys.trace := by
  have howes := h.owes htype
  cases hpc : u.copies p with
  | off =>
      rw [hpc] at howes
      rw [howes.1, howes.2]
  | read =>
      rw [hpc] at howes
      rw [show select _ _ = _ from howes]
  | reading =>
      rw [hpc] at howes
      rw [show select _ _ = _ from howes]
  | write data =>
      rw [hpc] at howes
      rw [show select _ _ = _ from howes]
      exact List.prefix_append _ _
  | writing data =>
      have hstands := h.stands
      rw [hpc] at howes hstands
      obtain ⟨w, c, hth, _⟩ := hstands
      rw [hth] at howes
      obtain ⟨_, hreads⟩ | ⟨_, hreads⟩ := howes
      · rw [hreads]
      · rw [hreads]
        exact List.prefix_append _ _
  | done =>
      rw [hpc] at howes
      exact howes.2

/-- Chunks of at most 32 KiB are carried whole. -/
theorem carried_locked (h : Linked p u) (htype : (u.sys.pcbs p).type = .tcp) :
    carried (select (Event.lockedOn p) u.sys.trace) = (lockedChunks p u.sys.trace).flatten := by
  have hsub : ∀ x ∈ select (Event.lockedOn p) u.sys.trace, accepted x.2 = x.2 := by
    intro x hx
    have hmem : x.2 ∈ lockedChunks p u.sys.trace := List.mem_map_of_mem hx
    have hfit := h.fits x.2 ((lockedChunks_isPrefix h htype).subset hmem)
    exact accepted_of_lt (Nat.lt_of_le_of_lt hfit.2 (by decide))
  rw [carried, lockedChunks, List.flatMap_def]
  exact congrArg List.flatten (List.map_congr_left hsub)

/-- While `err` is not set, `io.Copy` holds what was read and not locked for. -/
theorem reads_eq_of_open (h : Linked p u) (htype : (u.sys.pcbs p).type = .tcp)
    (hopen : (u.sys.pcbs p).err = false) :
    (select (Event.readOn p) u.sys.trace).flatten =
      (lockedChunks p u.sys.trace).flatten ++ (u.copies p).held (u.sys.threads p) := by
  have howes := h.owes htype
  cases hpc : u.copies p with
  | off =>
      rw [hpc] at howes
      rw [howes.1, howes.2]
      rfl
  | write data =>
      rw [hpc] at howes
      rw [show select _ _ = _ from howes, List.flatten_append, List.flatten_singleton]
      rfl
  | writing data =>
      have hstands := h.stands
      rw [hpc] at howes hstands
      obtain ⟨w, c, hth, _⟩ := hstands
      rw [hth] at howes ⊢
      obtain ⟨hlocked, hreads⟩ | ⟨hout | ⟨_, herr⟩, hreads⟩ := howes
      · rw [hreads, CopyPc.held, if_pos hlocked, List.append_nil]
      · rw [hreads, CopyPc.held, if_neg (by rw [hout]; nofun), List.flatten_append,
          List.flatten_singleton]
      · exact absurd (hopen.symm.trans herr) nofun
  | done =>
      rw [hpc] at howes
      exact absurd (hopen.symm.trans howes.1) nofun
  | _ =>
      rw [hpc] at howes
      rw [show select _ _ = _ from howes]
      exact (List.append_nil _).symm

/-- Where `pbuf_alloc` succeeds in every `Send` of a TCP PCB, what the echo program gives to
`tcp_write` are the first bytes that lwIP delivered on the connection. While the connection
is open and the process runs, the others are in `es->p`, in the hands of the `Write`, of
`io.Copy` or of the `Read`, in `recvQueued`, or about to be queued there, in this order. -/
theorem run_echoes (hrun : (echo cfg).Run tr u)
    (hok : Machine.Meets (fun u a => AllocOk p u.sys a) tr)
    (hp : Made u.sys.nextPcb u.sys.pcbs .tcp p) :
    written (u.sys.pcbs p).conn u.sys.trace <+:
        (select (Event.deliveredTo (u.sys.pcbs p).conn) u.sys.trace).flatten ∧
      ((u.sys.pcbs p).err = false → u.sys.panic = none →
        ∃ es rest, u.sys.heap (u.sys.pcbs p).state = some es ∧
          Unsent (fun t => (u.sys.threads t).writing p) (fun w => (u.sys.bufs w).data)
            (pendingOn p (u.sys.loop.inHand ++ u.sys.sendQueue.buf)) rest ∧
          (select (Event.deliveredTo (u.sys.pcbs p).conn) u.sys.trace).flatten =
            written (u.sys.pcbs p).conn u.sys.trace ++ chainBytes es.p ++ rest ++
              (u.copies p).held (u.sys.threads p) ++
              ((u.sys.threads p).received p ++ (u.sys.chans (.own p)).buf ++
                u.sys.loop.pushing p).flatten) := by
  have hbridged := run_bridged hrun
  have hok' : Machine.Meets (AllocOk p) (bridged tr) := meets_bridged.mpr hok
  have hlinked := reachable_linked hrun.reachable p
  have hready := reachable_outputReady hbridged.reachable
  have hchunks := run_inChunks hbridged (run_readBy (p := p) hrun)
  have harrivals := run_inArrivals hbridged (run_readBy (p := p) hrun)
  have hcarried := carried_locked hlinked hp.2
  constructor
  · calc written (u.sys.pcbs p).conn u.sys.trace
        <+: (lockedChunks p u.sys.trace).flatten := by
          rw [← hcarried]
          exact (run_inWithin hbridged hok').wrote hp
      _ <+: (select (Event.readOn p) u.sys.trace).flatten :=
          (lockedChunks_isPrefix hlinked hp.2).flatten
      _ <+: (select (Event.queuedOn p) u.sys.trace).flatten := hchunks.returned.flatten
      _ <+: (select (Event.deliveredTo (u.sys.pcbs p).conn) u.sys.trace).flatten :=
          ((List.prefix_append _ _).trans (harrivals.within hp)).flatten
  · intro hopen hrunning
    obtain ⟨es, hes, hconn⟩ := hready.order.table.object ⟨hp, hopen⟩
    obtain ⟨rest, hunsent, hall⟩ := (run_inOutput hbridged hok').bytes ⟨hp, hopen⟩ es hes hconn
    refine ⟨es, rest, hes, hunsent, ?_⟩
    rw [harrivals.whole hp hopen hrunning, hchunks.queued hrunning, List.append_assoc,
      List.append_assoc, List.flatten_append, reads_eq_of_open hlinked hp.2 hopen, ← hcarried,
      ← hall]
    simp only [List.append_assoc, List.flatten_append]

namespace Schedule

/-- io.Copy reads what is queued and writes it. -/
def copies (data : Bytes) : List Act :=
  .call 0 (.read 0 copySize) :: List.replicate 5 (.go 0) ++ Schedule.write data

/-- The second call of `tcp_write` finds no memory. -/
def short : Outcomes := { Schedule.fine with writes := [.ok, .mem] }

/-- Two chunks arrive and are copied one after the other, the second only up to its first pbuf. -/
def copyTwo : List Act :=
  Schedule.receive ++ [.callback (.recv 1 (some (List.replicate 300 8)) .ok) Schedule.fine] ++
    List.replicate 3 (.loop Schedule.fine) ++ copies [9] ++ Schedule.sendAndAck Schedule.fine ++
      Schedule.writeReturns ++ copies (List.replicate 300 8) ++ [.take .send short, .loop short]

end Schedule

/-- A chunk goes through, and of the next one 256 bytes; the others are left in `es->p`. -/
theorem run_echoes_two : ∃ tr u, (echo Schedule.config).Run tr u ∧
    written (u.sys.pcbs 0).conn u.sys.trace = 9 :: List.replicate 256 8 ∧
    (u.sys.pcbs 0).err = false ∧ u.sys.panic = none ∧
    written (u.sys.pcbs 0).conn u.sys.trace <+:
      (select (Event.deliveredTo (u.sys.pcbs 0).conn) u.sys.trace).flatten ∧
    ∃ es rest, u.sys.heap (u.sys.pcbs 0).state = some es ∧
      (select (Event.deliveredTo (u.sys.pcbs 0).conn) u.sys.trace).flatten =
        written (u.sys.pcbs 0).conn u.sys.trace ++ chainBytes es.p ++ rest := by
  obtain ⟨tr, u, hrun, hmeets, htest⟩ := Machine.exists_run_of_exec (echo Schedule.config)
    (fun u a => Schedule.allocates u.sys a) Schedule.copyTwo
    (fun u => 0 < u.sys.nextPcb ∧ (u.sys.pcbs 0).type = .tcp ∧
      written (u.sys.pcbs 0).conn u.sys.trace = 9 :: List.replicate 256 8 ∧
      (u.sys.pcbs 0).err = false ∧ u.sys.panic = none) (by decide +kernel)
  obtain ⟨hlt, htype, hwritten, hopen, hrunning⟩ := of_decide_eq_true htest
  have hok : Machine.Meets (fun u a => AllocOk 0 u.sys a) tr := by
    refine hmeets.mono ?_
    intro u a halloc
    cases a with
    | loop o => exact fun _ _ _ => halloc
    | _ => trivial
  obtain ⟨hfront, hall⟩ := run_echoes hrun hok ⟨hlt, htype⟩
  obtain ⟨es, rest, hes, _, hbytes⟩ := hall hopen hrunning
  rw [List.append_assoc (written _ _ ++ _), List.append_assoc (written _ _ ++ _)] at hbytes
  exact ⟨tr, u, hrun, hwritten, hopen, hrunning, hfront, es, _, hes, hbytes⟩

end Echo

end LwipCs
