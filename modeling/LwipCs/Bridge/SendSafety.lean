import LwipCs.Bridge.Handshake

/-!
# The loop never waits for a `Write`

Bytes that `tcp_write` did not take belong to a counted `Send`, so `cs_tcp_char_send`
finds the chain of an open PCB empty. With the handshake this bounds `sendCount`
and `sendWait`, and makes every send on `sendWait` by the loop succeed at once.
-/

namespace LwipCs

open Interleave

/-- Bytes that `tcp_write` did not take belong to a counted `Send`. -/
def Counted (nextPcb : PcbId) (pcbs : PcbId → PCB) (heap : Ptr → Option RawState) : Prop :=
  ∀ p es, Made nextPcb pcbs .tcp p → heap (pcbs p).state = some es → es.conn = (pcbs p).conn →
    es.p ≠ [] → (pcbs p).sendCount = 1

/-- `Counted` of a state of the system. -/
abbrev Sys.Counts (s : Sys) : Prop := Counted s.nextPcb s.pcbs s.heap

namespace Counted

variable {nextPcb : PcbId} {pcbs : PcbId → PCB} {heap : Ptr → Option RawState}

/-- A step that concerns one PCB and the objects of its connection. -/
theorem change (h : Counted nextPcb pcbs heap) {p : PcbId} {x : PCB}
    {heap' : Ptr → Option RawState}
    (hother : ∀ q es, q ≠ p → Made nextPcb pcbs .tcp q → heap' (pcbs q).state = some es →
      es.conn = (pcbs q).conn → heap (pcbs q).state = some es)
    (hp : Made nextPcb pcbs .tcp p → ∀ es, heap' (pcbs p).state = some es →
      es.conn = (pcbs p).conn → es.p ≠ [] → x.sendCount = 1)
    (hflow : x.toFlow = (pcbs p).toFlow) :
    Counted nextPcb (Function.update pcbs p x) heap' := by
  intro q es hq
  by_cases hqp : q = p
  · subst hqp
    have hold := hq.2
    simp only [Function.update_self, hflow] at hold ⊢
    exact hp ⟨hq.1, hold⟩ es
  · have hold := hq.2
    simp only [Function.update_of_ne hqp] at hold ⊢
    intro hheap hconn hpending
    exact h q es ⟨hq.1, hold⟩ (hother q es hqp ⟨hq.1, hold⟩ hheap hconn) hconn hpending

theorem setPcbs (h : Counted nextPcb pcbs heap) {pcbs' : PcbId → PCB}
    (hkept : PcbsKept pcbs pcbs') (hcount : ∀ p, (pcbs' p).sendCount = (pcbs p).sendCount) :
    Counted nextPcb pcbs' heap := by
  simpa only [Counted, Made, hkept.flow, hcount] using h

/-- A state object changes without gaining bytes. -/
theorem setHeap (h : Counted nextPcb pcbs heap) {e : Ptr} {es es' : RawState}
    (hes : heap e = some es) (hconn : es'.conn = es.conn)
    (hp : es'.p ≠ [] → es.p ≠ []) :
    Counted nextPcb pcbs (Function.update heap e (some es')) := by
  intro q es'' hq hheap hsame hpending
  by_cases hqe : (pcbs q).state = e
  · rw [hqe, Function.update_self] at hheap
    cases hheap
    exact h q es hq (hqe ▸ hes) (hconn.symm.trans hsame) (hp hpending)
  · rw [Function.update_of_ne hqe] at hheap
    exact h q es'' hq hheap hsame hpending

theorem freed (h : Counted nextPcb pcbs heap) {e : Ptr} :
    Counted nextPcb pcbs (Function.update heap e none) := by
  intro q es hq hheap
  by_cases hqe : (pcbs q).state = e
  · rw [hqe, Function.update_self] at hheap
    cases hheap
  · rw [Function.update_of_ne hqe] at hheap
    exact h q es hq hheap

theorem newPcb (h : Counted nextPcb pcbs heap) {x : PCB}
    (hx : x.type = .tcp → ∀ es, heap x.state = some es → es.p = []) :
    Counted (nextPcb + 1) (Function.update pcbs nextPcb x) heap := by
  intro q es hq hheap hconn hpending
  rcases Nat.lt_succ_iff_lt_or_eq.mp hq.1 with hlt | rfl
  · have hne : q ≠ nextPcb := Nat.ne_of_lt hlt
    have htype := hq.2
    rw [Function.update_of_ne hne] at htype hheap hconn ⊢
    exact h q es ⟨hlt, htype⟩ hheap hconn hpending
  · have htype := hq.2
    rw [Function.update_self] at htype hheap
    exact absurd (hx htype es hheap) hpending

/-- An object just allocated has no bytes. -/
theorem allocated (h : Counted nextPcb pcbs heap) {e : Ptr} {es : RawState} (hes : es.p = []) :
    Counted nextPcb pcbs (Function.update heap e (some es)) := by
  intro q es' hq hheap hconn hpending
  by_cases hqe : (pcbs q).state = e
  · rw [hqe, Function.update_self] at hheap
    cases hheap
    exact absurd hes hpending
  · rw [Function.update_of_ne hqe] at hheap
    exact h q es' hq hheap hconn hpending

end Counted

variable {cfg : Config} {s t : Sys} {o : Outcomes}

/-- The PCB of an entry in the hands of the loop owns the object `Send` uses. -/
theorem Sys.InTable.owns (h : s.InTable) {p : PcbId} {es : RawState}
    (hp : Made s.nextPcb s.pcbs .tcp p) (hopen : (s.pcbs p).err = false)
    (hloop : s.loop.closing = none) (hes : s.heap (s.pcbs p).state = some es) :
    es.conn = (s.pcbs p).conn := by
  rcases h.isOpen p hp.1 hp.2 hopen with hin | ⟨e, hclosing⟩
  · obtain ⟨es', hes', hconn, _⟩ := h.entry _ _ hin
    rw [hes] at hes'
    cases hes'
    exact hconn
  · rw [hloop] at hclosing
    cases hclosing

/-- When `Send` runs for an open PCB nothing is counted and no bytes are pending. -/
theorem Sys.Shaken.send (h : s.Shaken) (hcounts : s.Counts) (hin : s.InTable) {p : PcbId}
    {w : WriteId} (hloop : s.loop = .send ⟨p, w⟩) (hp : Made s.nextPcb s.pcbs .tcp p)
    (hopen : (s.pcbs p).err = false) :
    (s.pcbs p).sendCount = 0 ∧ ∀ es, s.heap (s.pcbs p).state = some es → es.p = [] := by
  rw [Sys.Shaken, hloop] at h
  have hlive := (h.entry hp hopen).2.2.2
  simp only [PCB.live] at hlive
  have hzero : (s.pcbs p).sendCount = 0 := by omega
  refine ⟨hzero, ?_⟩
  intro es hes
  by_contra hpending
  have hone := hcounts p es hp hes (hin.owns hp hopen (by rw [hloop]; rfl) hes) hpending
  omega

theorem LoopKept.counts {kind : Event → Bool} (h : LoopKept kind s t) (hs : s.Counts) :
    t.Counts := by
  rw [Sys.Counts, h.nextPcb, h.heap]
  exact hs.setPcbs h.pcbs h.sendCount

theorem LoopStep.counts {pc : LoopPc} (hpc : s.loop = pc) (h : LoopStep cfg s o pc t)
    (hs : s.Counts) (hshaken : s.Shaken) (hin : s.InOrder) : t.Counts := by
  have hok : pc.Ok s.nextPcb s.pcbs := hpc ▸ hin.known.loop
  cases h with
  | @sendFailed p w es ret herr htype _ _ _ =>
      obtain ⟨_, hempty⟩ := hshaken.send hs hin.table hpc ⟨hok, htype⟩ herr
      refine Counted.change hs (fun _ _ _ _ hheap _ => hheap) ?_ rfl
      intro _ es' hheap _ hpending
      exact absurd (hempty es' hheap) hpending
  | @sendTcp p w es run herr htype _ hes _ _ _ =>
      have hp : Made s.nextPcb s.pcbs .tcp p := ⟨hok, htype⟩
      obtain ⟨hzero, _⟩ := hshaken.send hs hin.table hpc hp herr
      have howns := hin.table.owns hp herr (by rw [hpc]; rfl) hes
      refine Counted.change hs ?_ ?_ rfl
      · intro q es' hqp hq hheap hconn
        by_cases hstate : (s.pcbs q).state = (s.pcbs p).state
        · -- two PCBs with the object of one connection are one
          simp only [hstate, Function.update_self] at hheap
          cases hheap
          have hsame : (s.pcbs q).conn = (s.pcbs p).conn := hconn.symm.trans howns
          exact absurd (hin.table.conn_inj q p hq.1 hp.1 hq.2 htype hsame) hqp
        · simpa only [Function.update_of_ne hstate] using hheap
      · intro _ _ _ _ _
        show (s.pcbs p).sendCount + 1 = 1
        rw [hzero]
  | done _ => exact hs.setPcbs .set sendCount_set
  | close hclose => exact hclose.loopKept.counts hs
  | closed => exact .freed (hs.setPcbs .set sendCount_set)
  | _ => exact hs

theorem CallbackStep.counts {cb : Callback} (h : CallbackStep cfg s o cb t) (hs : s.Counts)
    (hin : s.InOrder) : t.Counts := by
  cases h with
  | @accept a e localEnd remoteEnd _ _ =>
      refine .newPcb (hs.allocated rfl) ?_
      intro _ es hes
      rw [newPCB, Function.update_self] at hes
      cases hes
      rfl
  | recvClosed _ _ _ hes _ _ => exact hs.setHeap hes rfl id
  | recvEmpty _ _ _ hes _ _ => exact hs.setHeap hes rfl id
  | recv _ _ _ hes _ _ _ => exact hs.setHeap hes rfl id
  | fin _ _ _ hes _ => exact hs.setHeap hes rfl id
  | sentMore _ _ _ hes _ hpending _ => exact hs.setHeap hes rfl fun _ => hpending
  | @sent a e p x es len ha harg hp hes hconn hidle herr hcount =>
      refine Counted.change hs (fun _ _ _ _ hheap _ => hheap) ?_ rfl
      intro _ es' hheap _ hpending
      rw [(hin.table.known _ _ hp).2.2, hes] at hheap
      cases hheap
      exact absurd hidle hpending
  | pollMore _ _ _ hes _ hpending _ => exact hs.setHeap hes rfl fun _ => hpending
  | udpNew _ _ => exact hs.newPcb nofun
  | _ => exact hs

theorem Step.counts {a : Act} (h : Step cfg s a t) (hs : s.Counts) (hshaken : s.Shaken)
    (hin : s.InOrder) : t.Counts := by
  by_cases ha : a.ofGoroutine = true
  · exact (h.loopKept ha).counts hs
  cases h with
  | loop hpc h => exact h.counts hpc hs hshaken hin
  | callback _ h => exact h.counts hs hin
  | _ => first | exact hs | exact absurd rfl ha

/-- In every reachable state pending bytes are counted. -/
theorem reachable_counts (h : (bridge cfg).Reachable s) : s.Counts := by
  have known : ∀ {s}, (bridge cfg).Reachable s → s.InOrder ∧ s.Shaken :=
    fun h => ⟨reachable_inOrder h, reachable_shaken h⟩
  refine h.invariant_of known ?_ ?_
  · rintro p es ⟨hp, _⟩
    exact absurd hp (Nat.not_lt_zero p)
  · intro s a t hs _ hcounts hstep
    exact (step_cases hs.1 hstep).counts hcounts hs.2 hs.1

/-- What the handshake promises of a TCP PCB in one state. -/
structure Sys.SendSafe (cfg : Config) (s : Sys) (p : PcbId) : Prop where
  count : (s.pcbs p).sendCount = 0 ∨ (s.pcbs p).sendCount = 1
  tokens : (s.pcbs p).sendCount + (s.pcbs p).sendWait.buf.length ≤ 1
  /-- while a `Send` is counted, a `Write` holds the lock across its wait -/
  writer : (s.pcbs p).sendCount = 1 → (s.pcbs p).err = false ∧
    ∃ t w, s.threads t = .write p w .wait ∧ (s.pcbs p).lck = some (.goroutine t)
  pending : ∀ es, s.heap (s.pcbs p).state = some es → es.conn = (s.pcbs p).conn → es.p ≠ [] →
    (s.pcbs p).sendCount = 1
  /-- the send of `go_tcp_send_done_h` neither blocks nor panics -/
  done : ∀ a e k, s.loop = .done p a e k → ∃ ch, (s.pcbs p).sendWait.send () = .done ch
  /-- the close of `sendWait` does not panic -/
  closeOnce : ∀ who, inClose s.threads s.loop who = some (p, .closeWait) →
    ∃ ch, (s.pcbs p).sendWait.close = .done ch
  /-- `cs_tcp_char_send` called by `Send` finds no pending data -/
  charSend : ∀ w es o, s.loop = .send ⟨p, w⟩ → (s.pcbs p).err = false →
    s.heap (s.pcbs p).state = some es →
    (s.csTcpCharSend cfg (s.pcbs p).pcb (s.pcbs p).state es (s.bufs w).data o).2 ≠ 100

theorem waitsOn_eq {th : Thread} {p : PcbId} {w : WriteId} (h : th.waitsOn = some (p, w)) :
    th = .write p w .wait := by
  cases th with
  | write q v pc =>
      cases pc with
      | wait =>
          cases h
          rfl
      | _ => cases h
  | _ => cases h

/-- A counted `Send` belongs to a `Write` that holds the lock of an open PCB. -/
theorem counted_writer (hshaken : s.Shaken) (hlocked : s.Locked) {p : PcbId}
    (hp : Made s.nextPcb s.pcbs .tcp p) (hcount : 0 < (s.pcbs p).sendCount) :
    (s.pcbs p).err = false ∧
      ∃ t w, s.threads t = .write p w .wait ∧ (s.pcbs p).lck = some (.goroutine t) := by
  have hlive : 0 < (s.pcbs p).live + s.loop.grants p := by
    simp only [PCB.live]
    omega
  obtain ⟨hopen, ⟨w, t, hw⟩, _⟩ := hshaken.released hp hlive
  exact ⟨hopen, t, w, waitsOn_eq hw, hlocked.holder.mp (Thread.holds_of_waitsOn hw)⟩

/-- The counts and tokens of a PCB never exceed one. -/
theorem live_le_one (hshaken : s.Shaken) {p : PcbId} (hp : Made s.nextPcb s.pcbs .tcp p) :
    (s.pcbs p).live + s.loop.grants p ≤ 1 := by
  by_cases hlive : 0 < (s.pcbs p).live + s.loop.grants p
  · exact Nat.le_of_eq (hshaken.released hp hlive).2.2.2
  · omega

/-- A token about to be sent finds `sendWait` open and empty. -/
theorem done_ready (hshaken : s.Shaken) (honce : s.ClosedOnce) {p : PcbId}
    (hp : Made s.nextPcb s.pcbs .tcp p) {a e : Ptr} {k : ConnId} (hloop : s.loop = .done p a e k) :
    ∃ ch, (s.pcbs p).sendWait.send () = .done ch := by
  have hgrant : s.loop.grants p = 1 := by
    rw [hloop]
    exact if_pos rfl
  obtain ⟨hopen, _, _, hone⟩ := hshaken.released hp (by omega)
  refine Chan.send_of_room ?_ ?_
  · cases hclosed : (s.pcbs p).sendWait.closed with
    | false => rfl
    | true =>
        rw [honce.closed p hclosed] at hopen
        cases hopen
  · rw [(hshaken p hp).cap]
    simp only [PCB.live] at hone
    omega

/-- The invariant of the send handshake, on every TCP PCB in every reachable state. -/
theorem reachable_sendSafe (h : (bridge cfg).Reachable s) {p : PcbId}
    (hp : Made s.nextPcb s.pcbs .tcp p) : s.SendSafe cfg p := by
  have hin := reachable_inOrder h
  have hshaken := reachable_shaken h
  have hcounts := reachable_counts h
  have hlive := live_le_one hshaken hp
  simp only [PCB.live] at hlive
  constructor
  · omega
  · omega
  · intro hone
    exact counted_writer hshaken (reachable_locked h) hp (by omega)
  · intro es
    exact hcounts p es hp
  · intro a e k
    exact done_ready hshaken (reachable_closedOnce h) hp
  · intro who hpos
    have hopen := (reachable_closedOnce h).isOpen who p _ hpos rfl
    refine ⟨{ (s.pcbs p).sendWait with closed := true }, ?_⟩
    rw [Chan.close, if_neg (by simp [hopen])]
  · intro w es o hloop hopen hes
    have hempty := (hshaken.send hcounts hin.table hloop hp hopen).2 es hes
    rw [Sys.csTcpCharSend, if_neg (by simp [hempty])]
    split <;> simp

/-- A state in which a `Send` is counted. -/
theorem reachable_sendSafe_counted : ∃ s, (bridge Schedule.config).Reachable s ∧
    (s.pcbs 0).sendCount = 1 ∧ s.SendSafe Schedule.config 0 := by
  obtain ⟨tr, s, hrun, _, htest⟩ := Machine.exists_run_of_exec (bridge Schedule.config)
    (fun _ _ => true)
    (Schedule.accept ++ [.loop Schedule.fine] ++ Schedule.write [7] ++
      [.take .send Schedule.fine, .loop Schedule.fine])
    (fun s => s.nextPcb = 1 ∧ (s.pcbs 0).type = .tcp ∧ (s.pcbs 0).sendCount = 1) (by decide)
  obtain ⟨hnext, htype, hcount⟩ := of_decide_eq_true htest
  have hp : Made s.nextPcb s.pcbs .tcp 0 := by
    rw [hnext]
    exact ⟨Nat.one_pos, htype⟩
  exact ⟨s, hrun.reachable, hcount, reachable_sendSafe hrun.reachable hp⟩

end LwipCs
