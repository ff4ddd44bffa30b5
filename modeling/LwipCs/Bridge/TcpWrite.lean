import LwipCs.Bridge.Output

/-!
# `Write` on a TCP PCB is truthful

A `Write` that returns without an error has had its bytes handed to `tcp_write`, in
the order of the locks. `Send` does not look at the result of `cs_tcp_char_send`, so
this needs that `pbuf_alloc` succeeds.
-/

namespace LwipCs

open Interleave

variable {cfg : Config} {s t : Sys} {o : Outcomes} {p : PcbId}

theorem Thread.writing_of_ne {q : PcbId} {w : WriteId} {pc : WritePc} (hq : q ≠ p) :
    (Thread.write q w pc).writing p = none :=
  if_neg fun h => hq h.1

theorem Thread.writing_of_unlocked {q : PcbId} {w : WriteId} {pc : WritePc}
    (hpc : pc.locked = false) : (Thread.write q w pc).writing p = none := by
  refine if_neg ?_
  rintro ⟨_, hlocked⟩
  rw [hpc] at hlocked
  cases hlocked

theorem Thread.writing_self {w : WriteId} {c : WritePc} (hc : c.locked = true) :
    (Thread.write p w c).writing p = some (w, c) :=
  if_pos ⟨rfl, hc⟩

/-- A goroutine past the lock of a `Write` that has not given it back holds it. -/
theorem Thread.holds_of_writing {th : Thread} {w : WriteId} {pc : WritePc}
    (h : th.writing p = some (w, pc)) : pc = .ret ∨ th.holds = some p := by
  cases th with
  | write q v c =>
      rw [Thread.writing] at h
      split at h
      · rename_i hq
        obtain ⟨rfl, hc⟩ := hq
        cases h
        cases pc <;> first | exact Or.inl rfl | exact Or.inr rfl | cases hc
      · cases h
  | _ => cases h

theorem Thread.write_of_writing {th : Thread} {w : WriteId} {pc : WritePc}
    (h : th.writing p = some (w, pc)) : th = .write p w pc := by
  cases th with
  | write q v c =>
      rw [Thread.writing] at h
      split at h
      · rename_i hq
        cases h
        rw [hq.1]
      · cases h
  | _ => cases h

/-- The object of an open PCB is allocated. -/
theorem Sys.InTable.object (h : s.InTable) (hp : OpenTcp s.nextPcb s.pcbs p) :
    ∃ es, s.heap (s.pcbs p).state = some es ∧ es.conn = (s.pcbs p).conn := by
  rcases h.isOpen p hp.1.1 hp.1.2 hp.2 with hin | ⟨e, hclosing⟩
  · obtain ⟨es, hes, hconn, _⟩ := h.entry _ p hin
    exact ⟨es, hes, hconn⟩
  · obtain ⟨_, _, hstate, _, es, hes, hconn⟩ := h.closing p e hclosing
    exact ⟨es, hstate ▸ hes, hconn⟩

/-- A posted buffer of an open PCB belongs to a `Write` that waits. -/
theorem Sys.Shaken.posted (h : s.Shaken) (hp : OpenTcp s.nextPcb s.pcbs p) {w : WriteId}
    (hw : w ∈ pendingOn p (s.loop.inHand ++ s.sendQueue.buf)) :
    ∃ th, s.threads th = .write p w .wait := by
  obtain ⟨hidle, hwaiting, _, _⟩ := h p hp.1
  by_cases hsome : ∃ v, Waits s.threads p v
  · obtain ⟨v, u, hu⟩ := hsome
    rcases hwaiting hp.2 v ⟨u, hu⟩ with ⟨hpending, _⟩ | ⟨hpending, _⟩
    · rw [hpending] at hw
      obtain rfl := List.mem_singleton.mp hw
      exact ⟨u, waitsOn_eq hu⟩
    · rw [hpending] at hw
      cases hw
  · rw [(hidle hp.2 (not_exists.mp hsome)).1] at hw
    cases hw

/-- The state in which a step of `Output` is taken. -/
structure Sys.OutputReady (s : Sys) : Prop where
  order : s.InOrder
  locked : s.Locked
  once : s.ClosedOnce
  shaken : s.Shaken
  counts : s.Counts
  writes : s.WritesOk

theorem reachable_outputReady (h : (bridge cfg).Reachable s) : s.OutputReady :=
  ⟨reachable_inOrder h, reachable_locked h, reachable_closedOnce h, reachable_shaken h,
    reachable_counts h, reachable_writesOk h⟩

/-- A goroutine that waits alone decides what is unsent. -/
theorem Sys.Locked.no_enqueue (h : s.Locked) {th u : Tid} {w v : WriteId}
    (hth : s.threads th = .write p w .wait) (hu : (s.threads u).writing p = some (v, .enqueue)) :
    False := by
  have hown : (s.threads th).holds = some p := by rw [hth]; rfl
  rcases Thread.holds_of_writing hu with hpc | hholds
  · cases hpc
  · rw [h.eq_of_holds hholds hown, hth, Thread.writing, if_pos ⟨rfl, rfl⟩] at hu
    cases hu

theorem writing_update (threads : Tid → Thread) (th : Tid) (x : Thread) :
    (fun u => (Function.update threads th x u).writing p) =
      Function.update (fun u => (threads u).writing p) th (x.writing p) := by
  funext u
  by_cases hu : u = th
  · subst hu
    rw [Function.update_self, Function.update_self]
  · rw [Function.update_of_ne hu, Function.update_of_ne hu]

theorem data_update {bufs : WriteId → Buffer} {w : WriteId} {b : Buffer}
    (hb : b.data = (bufs w).data) :
    (fun v => (Function.update bufs w b v).data) = fun v => (bufs v).data := by
  funext v
  exact update_field Buffer.data hb v

/-- The lock of `p` is taken by a `Write`. -/
theorem lock_inOutput {th : Tid} {w : WriteId} (hth : s.threads th = .write p w .lock)
    (hlck : (s.pcbs p).lck = none) (hready : s.OutputReady) (hs : s.InOutput p) :
    Output p s.nextPcb s.pcbs
      (Function.update (fun u => (s.threads u).writing p) th (some (w, .enqueue)))
      (fun v => (s.bufs v).data) (pendingOn p (s.loop.inHand ++ s.sendQueue.buf)) s.heap s.nextConn
      (s.trace ++ [.locked p w (s.bufs w).data]) := by
  have hok : Thread.Ok s.nextPcb s.pcbs (.write p w .lock) := hth ▸ hready.order.known.threads th
  have hfree : ∀ u, (s.threads u).holds ≠ some p :=
    fun u => hready.locked.free_iff.mp hlck (.goroutine u)
  refine hs.lock hok.1 ?_ ?_
  · intro u v pc hu
    exact (Thread.holds_of_writing hu).resolve_right (hfree u)
  · intro hopen
    refine ((hready.shaken p hopen.1).idle hopen.2 ?_).1
    rintro v ⟨u, hu⟩
    exact hfree u (Thread.holds_of_waitsOn hu)

/-- A `Write` on an open PCB that finds its token has handed everything over. -/
theorem released_all {th : Tid} {w : WriteId} {r : Option Unit} {ch : Chan Unit}
    (hth : s.threads th = .write p w .wait) (hrecv : (s.pcbs p).sendWait.recv = .done (r, ch))
    (hready : s.OutputReady) (hs : s.InOutput p) (hopen : OpenTcp s.nextPcb s.pcbs p) :
    ∃ pre post, select (Event.lockedOn p) s.trace = pre ++ (w, (s.bufs w).data) :: post ∧
      carried (pre ++ [(w, (s.bufs w).data)]) <+: written (s.pcbs p).conn s.trace := by
  have htoken : 0 < (s.pcbs p).sendWait.buf.length := by
    rcases Chan.recv_done hrecv with ⟨x, _, hbuf, _⟩ | ⟨_, _, _, hclosed⟩
    · rw [hbuf, List.length_cons]
      omega
    · have herr := hready.once.closed p hclosed
      rw [hopen.2] at herr
      cases herr
  obtain ⟨_, _, hpending, hone⟩ := hready.shaken.released hopen.1
    (by simp only [PCB.live]; omega)
  obtain ⟨es, hes, hconn⟩ := hready.order.table.object hopen
  have hempty : es.p = [] := by
    by_contra hne
    have := hready.counts p es hopen.1 hes hconn hne
    simp only [PCB.live] at hone
    omega
  obtain ⟨rest, hunsent, hall⟩ := hs.bytes hopen es hes hconn
  have hrest : rest = [] := by
    refine hunsent.nothing ?_ hpending
    intro u v hu
    exact hready.locked.no_enqueue hth hu
  obtain ⟨pre, hlocked⟩ := hs.held th w .wait (by rw [hth]; exact Thread.writing_self rfl)
    (Or.inr rfl)
  refine ⟨pre, [], hlocked, ?_⟩
  have hcarried : carried (pre ++ [(w, (s.bufs w).data)]) = written (s.pcbs p).conn s.trace := by
    rw [← hlocked, ← hall, hempty, hrest, chainBytes_nil, List.append_nil, List.append_nil]
  exact hcarried ▸ List.prefix_rfl

/-- An entry for `q` is posted behind the others. -/
theorem pendingOn_posted {q : PcbId} {w : WriteId} {c : Chan SendEntry}
    (hsend : s.sendQueue.send ⟨q, w⟩ = .done c) :
    pendingOn p (s.loop.inHand ++ c.buf) =
      pendingOn p (s.loop.inHand ++ s.sendQueue.buf) ++ pendingOn p [⟨q, w⟩] := by
  rw [(Chan.send_done hsend).2.2.1, ← List.append_assoc, pendingOn_append]

/-- The end of a call leaves the data of its buffer. -/
theorem data_released {w : WriteId} :
    (fun v => (Function.update s.bufs w { s.bufs w with inUse := false } v).data) =
      fun v => (s.bufs v).data :=
  data_update rfl

/-- A `Write` on another PCB. -/
theorem WriteStep.inOutput_of_ne {th : Tid} {q : PcbId} {w : WriteId} {pc : WritePc}
    (hth : s.threads th = .write q w pc) (h : WriteStep s th q w pc t) (hq : q ≠ p)
    (hs : s.InOutput p) : t.InOutput p := by
  have outside : ∀ {x : Thread}, x.writing p = none →
      (s.threads th).writing p = x.writing p := by
    intro x hx
    rw [hth, Thread.writing_of_ne hq, hx]
  have moved : ∀ {c : WritePc}, (s.threads th).writing p = (Thread.write q w c).writing p :=
    fun {c} => outside (Thread.writing_of_ne hq)
  cases h with
  | empty _ =>
      simp only [Sys.InOutput, data_released]
      exact .emit (.setThread hs (outside rfl)) rfl (by intros; rfl) (Bool.and_false _)
  | closed _ _ => exact hs.setThread moved
  | tcp _ _ _ => exact hs.setThread moved
  | udp _ _ _ => exact hs.setThread moved
  | lock _ => exact .emit (.setThread (hs.setPcbs .set) moved) (if_neg hq)
  | enqueue hsend =>
      simp only [Sys.InOutput, pendingOn_posted hsend, pendingOn_of_ne hq, pendingOn_nil,
        List.append_nil]
      exact .emit (.setThread hs moved)
  | wait _ => exact .emit (.setThread (hs.setPcbs .set) moved)
  | unlock => exact .setThread (hs.setPcbs .set) moved
  | post hsend =>
      simp only [Sys.InOutput, pendingOn_posted hsend, pendingOn_of_ne hq, pendingOn_nil,
        List.append_nil]
      exact .emit (.setThread hs moved)
  | ret =>
      simp only [Sys.InOutput, data_released]
      refine .emit (.setThread hs (outside rfl)) rfl (by intros; rfl) ?_
      simp [Event.returnsOn, hq]

/-- An entry for a UDP PCB, posted by a `Write` that then returns. -/
theorem post_inOutput {th : Tid} {w : WriteId} {c : Chan SendEntry}
    (hth : s.threads th = .write p w .post) (hready : s.OutputReady) (hs : s.InOutput p) :
    Output p s.nextPcb s.pcbs
      (Function.update (fun u => (s.threads u).writing p) th (some (w, .ret)))
      (fun v => (s.bufs v).data) (pendingOn p (s.loop.inHand ++ c.buf)) s.heap s.nextConn
      s.trace := by
  have hok : Thread.Ok s.nextPcb s.pcbs (.write p w .post) := hth ▸ hready.order.known.threads th
  have hudp : ¬OpenTcp s.nextPcb s.pcbs p := by
    rintro ⟨⟨_, htype⟩, _⟩
    rw [hok.2] at htype
    cases htype
  refine .proceed (hs.setPending hudp) ?_ (Or.inr rfl) fun hopen => absurd hopen hudp
  intro v hv
  rw [hth, Thread.writing_of_unlocked rfl] at hv
  cases hv

/-- A `Write` on the PCB itself. -/
theorem WriteStep.inOutput_self {th : Tid} {w : WriteId} {pc : WritePc}
    (hth : s.threads th = .write p w pc) (h : WriteStep s th p w pc t) (hready : s.OutputReady)
    (hs : s.InOutput p) : t.InOutput p := by
  have outside : ∀ {x : Thread}, pc.locked = false → x.writing p = none →
      (s.threads th).writing p = x.writing p := by
    intro x hpc hx
    rw [hth, Thread.writing_of_unlocked hpc, hx]
  have inside : ∀ {c : WritePc}, pc.locked = true → pc = c →
      (s.threads th).writing p = some (w, c) := by
    rintro c hpc rfl
    rw [hth, Thread.writing_self hpc]
  cases h with
  | empty _ =>
      simp only [Sys.InOutput, data_released]
      exact .emit (.setThread hs (outside rfl rfl)) rfl (by intros; rfl) (Bool.and_false _)
  | closed _ herr =>
      simp only [Sys.InOutput, writing_update, Thread.writing_self (p := p) (c := .ret) rfl]
      refine hs.proceed ?_ (Or.inr rfl) ?_
      · intro v hv
        rw [hth, Thread.writing_of_unlocked rfl] at hv
        cases hv
      · intro hopen
        rw [hopen.2] at herr
        cases herr
  | tcp _ _ _ => exact .setThread hs (outside rfl (Thread.writing_of_unlocked rfl))
  | udp _ _ _ => exact .setThread hs (outside rfl (Thread.writing_of_unlocked rfl))
  | lock hlck =>
      simp only [Sys.InOutput, writing_update, Thread.writing_self (p := p) (c := .enqueue) rfl]
      exact .setPcbs (lock_inOutput hth hlck hready hs) .set
  | enqueue hsend =>
      have hposted := Output.enqueue hs (inside rfl rfl)
      simp only [Sys.InOutput, writing_update, Thread.writing_self (p := p) (c := .wait) rfl,
        pendingOn_posted hsend, pendingOn_self, pendingOn_nil]
      exact hposted.emit
  | wait hrecv =>
      simp only [Sys.InOutput, writing_update, Thread.writing_self (p := p) (c := .unlock) rfl]
      refine .emit (.setPcbs (hs.proceed ?_ (Or.inl rfl) (released_all hth hrecv hready hs)) .set)
      intro v hv
      exact hready.locked.no_enqueue hth hv
  | unlock =>
      have hw := inside (c := .unlock) rfl rfl
      simp only [Sys.InOutput, writing_update, Thread.writing_self (p := p) (c := .ret) rfl]
      refine .setPcbs (hs.proceed ?_ (Or.inr rfl) fun hopen => hs.past hopen th w _ hw (Or.inl rfl))
        .set
      intro v hv
      rw [hw] at hv
      cases hv
  | post _ =>
      simp only [Sys.InOutput, writing_update, Thread.writing_self (p := p) (c := .ret) rfl]
      exact .emit (post_inOutput hth hready hs)
  | ret =>
      have hok : Thread.Ok s.nextPcb s.pcbs (.write p w .ret) :=
        hth ▸ hready.order.known.threads th
      have hret := Output.ret hs (inside rfl rfl) hok hready.order.table.object
      simp only [Sys.InOutput, data_released, writing_update]
      exact hret

theorem WriteStep.inOutput {th : Tid} {q : PcbId} {w : WriteId} {pc : WritePc}
    (hth : s.threads th = .write q w pc) (h : WriteStep s th q w pc t) (hready : s.OutputReady)
    (hs : s.InOutput p) : t.InOutput p := by
  by_cases hq : q = p
  · subst hq
    exact h.inOutput_self hth hready hs
  · exact h.inOutput_of_ne hth hq hs

/-- The methods other than `Write`. -/
theorem LoopKept.inOutput (h : LoopKept Event.ofReadClose s t) (hwrites : WritesKept s t)
    (hs : s.InOutput p) : t.InOutput p := by
  rw [Sys.InOutput, h.nextPcb, h.loop, h.heap, h.nextConn, hwrites.bufs, hwrites.sendQueue,
    hwrites.writing]
  refine Output.setPcbs (h.trace.ind hs fun tr ev hev hs => ?_) h.pcbs
  cases ev <;> first | contradiction | exact hs.emit

/-- The loop hands the buffer of an open PCB to the C layer. -/
theorem send_inOutput {w : WriteId} {es : RawState} {run : SendRun}
    (hloop : s.loop = .send ⟨p, w⟩) (hopen : OpenTcp s.nextPcb s.pcbs p)
    (hes : s.heap (s.pcbs p).state = some es)
    (hrun : csTcpRawSend cfg.lwip (charChain cfg.lwip (s.bufs w).data) o.sndbuf o.writes = run)
    (hready : s.OutputReady) (hs : s.InOutput p) :
    Output p s.nextPcb s.pcbs (fun u => (s.threads u).writing p) (fun v => (s.bufs v).data)
      (pendingOn p s.sendQueue.buf)
      (Function.update s.heap (s.pcbs p).state (some { es with p := run.p })) s.nextConn
      (s.trace ++
        [.lwip es.conn (s.pcbs p).pcb (.rawSend run.attempts run.wrote.flatten)]) := by
  have hempty :=
    (hready.shaken.send hready.counts hready.order.table hloop hopen.1 hopen.2).2 es hes
  have hconn := hready.order.table.owns hopen.1 hopen.2 (by rw [hloop]; rfl) hes
  have hshaken := hready.shaken
  rw [Sys.Shaken, hloop] at hshaken
  obtain ⟨⟨u, hu⟩, _, hnone, _⟩ := hshaken.entry hopen.1 hopen.2
  have hposted : Output p s.nextPcb s.pcbs (fun u => (s.threads u).writing p)
      (fun v => (s.bufs v).data) (w :: pendingOn p s.sendQueue.buf) s.heap s.nextConn s.trace := by
    have := hs
    rw [Sys.InOutput, hloop] at this
    simpa only [LoopPc.inHand, List.singleton_append, pendingOn_self] using this
  have hsingle := charChain_single cfg.lwip (s.bufs w).data
  subst hrun
  refine hposted.send hes hconn hempty ?_ (csTcpRawSend_single hsingle _ _) ?_ ?_ hnone
  · rw [csTcpRawSend_bytes hsingle, chainBytes_charChain]
  · rw [hconn]
    exact hready.order.table.conn_lt p hopen.1.1 hopen.1.2
  · intro v x hv
    exact hready.locked.no_enqueue (waitsOn_eq hu) hv

/-- It does so for another PCB. -/
theorem sendOther_inOutput {q : PcbId} {w : WriteId} {es : RawState} {run : SendRun}
    (hloop : s.loop = .send ⟨q, w⟩) (hq : q ≠ p) (hopen : OpenTcp s.nextPcb s.pcbs q)
    (hes : s.heap (s.pcbs q).state = some es)
    (hrun : csTcpRawSend cfg.lwip (charChain cfg.lwip (s.bufs w).data) o.sndbuf o.writes = run)
    (hready : s.OutputReady)
    (hs : Output p s.nextPcb s.pcbs (fun u => (s.threads u).writing p) (fun v => (s.bufs v).data)
      (pendingOn p s.sendQueue.buf) s.heap s.nextConn s.trace) :
    Output p s.nextPcb s.pcbs (fun u => (s.threads u).writing p) (fun v => (s.bufs v).data)
      (pendingOn p s.sendQueue.buf)
      (Function.update s.heap (s.pcbs q).state (some { es with p := run.p })) s.nextConn
      (s.trace ++
        [.lwip es.conn (s.pcbs q).pcb (.rawSend run.attempts run.wrote.flatten)]) := by
  have htable := hready.order.table
  have hconn := htable.owns hopen.1 hopen.2 (by rw [hloop]; rfl) hes
  have hsingle : Single run.p := by
    rw [← hrun]
    exact csTcpRawSend_single (charChain_single cfg.lwip (s.bufs w).data) o.sndbuf o.writes
  have hlt : es.conn < s.nextConn := by
    rw [hconn]
    exact htable.conn_lt q hopen.1.1 hopen.1.2
  refine hs.transfer hes hsingle hlt ?_
  intro hp hsame
  exact absurd (htable.conn_inj q p hopen.1.1 hp.1.1 hopen.1.2 hp.1.2 (hconn.symm.trans hsame)) hq

theorem LoopStep.inOutput {pc : LoopPc} (hpc : s.loop = pc) (h : LoopStep cfg s o pc t)
    (hok : AllocOk p s (.loop o)) (hready : s.OutputReady) (hs : s.InOutput p) :
    t.InOutput p := by
  have hknown : pc.Ok s.nextPcb s.pcbs := hpc ▸ hready.order.known.loop
  have hs' : Output p s.nextPcb s.pcbs (fun u => (s.threads u).writing p)
      (fun v => (s.bufs v).data) (pendingOn p (pc.inHand ++ s.sendQueue.buf)) s.heap s.nextConn
      s.trace := by
    have := hs
    rwa [Sys.InOutput, hpc] at this
  have skip : ∀ {q w}, pc = .send ⟨q, w⟩ ∨ pc = .udpSend ⟨q, w⟩ →
      (q = p → ¬OpenTcp s.nextPcb s.pcbs p) →
      Output p s.nextPcb s.pcbs (fun u => (s.threads u).writing p) (fun v => (s.bufs v).data)
        (pendingOn p s.sendQueue.buf) s.heap s.nextConn s.trace := by
    intro q w hsend hclosed
    by_cases hq : q = p
    · exact hs'.setPending (hclosed hq)
    · rcases hsend with hsend | hsend <;> rw [hsend] at hs' <;>
        simpa only [LoopPc.inHand, List.singleton_append, pendingOn_of_ne hq] using hs'
  cases h with
  | creditClosed _ => exact hs'
  | credit _ => exact hs'.emit
  | dropped herr =>
      refine .emit (skip (.inl rfl) ?_)
      rintro rfl hopen
      rw [hopen.2] at herr
      cases herr
  | passed _ _ => exact hs'.emit
  | sendEmpty _ => exact hs
  | udpSendEmpty _ => exact hs
  | @sendFailed q w es ret herr htype _ hes hret =>
      refine .emit (.setPcbs (skip (.inl rfl) ?_) .set)
      rintro rfl hopen
      rcases hret with ⟨hpending, _⟩ | ⟨_, halloc, _⟩
      · exact hpending ((hready.shaken.send hready.counts hready.order.table hpc hopen.1 herr).2
          es hes)
      · rw [hok w hpc herr] at halloc
        cases halloc
  | @sendTcp q w es run herr htype _ hes hempty _ hrun =>
      have hopen : OpenTcp s.nextPcb s.pcbs q := ⟨⟨hknown, htype⟩, herr⟩
      by_cases hq : q = p
      · subst hq
        exact .emit (.setPcbs (send_inOutput hpc hopen hes hrun hready hs) .set)
      · have hposted := skip (.inl rfl) fun h => absurd h hq
        have hsent := sendOther_inOutput hpc hq hopen hes hrun hready hposted
        exact .emit (hsent.setPcbs .set)
  | sendUdp htype _ _ =>
      refine .emit (.emit (skip (.inr rfl) ?_))
      rintro rfl hopen
      rw [hopen.1.2] at htype
      cases htype
  | sendUdpFailed htype _ _ =>
      refine .emit (skip (.inr rfl) ?_)
      rintro rfl hopen
      rw [hopen.1.2] at htype
      cases htype
  | post _ => exact hs'
  | netif => exact hs'.emit
  | netifNone => exact hs'
  | leave => exact hs'
  | target => exact hs'
  | pushClosed _ => exact hs
  | push _ => exact .emit hs'.emit
  | pushUdp _ => exact .emit hs'.emit
  | doneClosed _ => exact hs
  | done _ => exact (hs'.setPcbs .set)
  | @close q pc pc' a e k s' hclose =>
      have hclosed := hclose.loopKept.inOutput hclose.writesKept hs
      rw [Sys.InOutput, hclose.loopKept.loop, hpc] at hclosed
      exact hclosed
  | @closed q a e k =>
      obtain ⟨_, _, _, _, es, hes, _⟩ := hready.order.table.closing q e (by rw [hpc]; rfl)
      have hfreed : Output p s.nextPcb _ _ _ _ (Function.update s.heap e none) _ _ :=
        hs'.setHeap hes nofun
      exact .emit (.emit (.notify cfg.event (hfreed.setPcbs .set)))

/-- A PCB that is not made is written by nobody, and nothing is posted for it. -/
theorem Sys.InOrder.unmade (h : s.InOrder) (hp : p = s.nextPcb) :
    (∀ u, (s.threads u).writing p = none) ∧ pendingOn p s.sendQueue.buf = [] := by
  subst hp
  constructor
  · intro u
    cases hu : (s.threads u).writing s.nextPcb with
    | none => rfl
    | some x =>
        obtain ⟨w, c⟩ := x
        have hok := h.known.threads u
        rw [Thread.write_of_writing hu] at hok
        have hlt : s.nextPcb < s.nextPcb := by
          cases c with
          | test => exact hok
          | ret => exact hok
          | _ => exact hok.1
        exact absurd hlt (Nat.lt_irrefl _)
  · refine pendingOn_eq_nil ?_
    intro entry hentry
    exact Nat.ne_of_lt (h.known.sends entry hentry)

section

variable {trace : List Event}

/-- What is left in an object goes on to `tcp_write` in a callback. -/
theorem resumed_inOutput {q : PcbId} {a e : Ptr} {x : TcpPcb} {es : RawState} {run : SendRun}
    (ha : s.tpcbs a = some x) (hq : s.tcpPcbs e = some q) (hes : s.heap e = some es)
    (hconn : es.conn = x.conn) (hrun : csTcpRawSend cfg.lwip es.p o.sndbuf o.writes = run)
    (hin : s.InTable)
    (hs : Output p s.nextPcb s.pcbs (fun u => (s.threads u).writing p) (fun v => (s.bufs v).data)
      (pendingOn p s.sendQueue.buf) s.heap s.nextConn trace) :
    Output p s.nextPcb s.pcbs (fun u => (s.threads u).writing p) (fun v => (s.bufs v).data)
      (pendingOn p s.sendQueue.buf) (Function.update s.heap e (some { es with p := run.p }))
      s.nextConn (trace ++ [.lwip es.conn a (.rawSend run.attempts run.wrote.flatten)]) := by
  obtain ⟨hlt, htype, hstate⟩ := hin.known e q hq
  obtain ⟨es', hes', hqconn, _⟩ := hin.entry e q hq
  rw [hes] at hes'
  cases hes'
  have hsingle := hs.single e es hes
  subst hrun
  refine hs.transfer hes (csTcpRawSend_single hsingle _ _) (hconn ▸ hin.tpcb_lt a x ha) ?_
  intro hopen hsame
  have hpq := hin.conn_inj q p hlt hopen.1.1 htype hopen.1.2 (hqconn.symm.trans hsame)
  exact ⟨hpq ▸ hstate, csTcpRawSend_bytes hsingle _ _⟩

/-- A connection is accepted: its object is empty. -/
theorem accept_inOutput {a e : Ptr} {localEnd remoteEnd : Endpoint} (horder : s.InOrder)
    (hs : Output p s.nextPcb s.pcbs (fun u => (s.threads u).writing p) (fun v => (s.bufs v).data)
      (pendingOn p s.sendQueue.buf) s.heap s.nextConn trace) :
    Output p (s.nextPcb + 1)
      (Function.update s.pcbs s.nextPcb (newPCB s.nextPcb ⟨.tcp, a, e, localEnd.ip, localEnd.port,
        remoteEnd.ip, remoteEnd.port, s.nextConn⟩))
      (fun u => (s.threads u).writing p) (fun v => (s.bufs v).data) (pendingOn p s.sendQueue.buf)
      (Function.update s.heap e (some ⟨.accepted, a, [], s.nextConn⟩)) (s.nextConn + 1) trace := by
  refine hs.newPcb (Nat.le_succ _) ?_ (fun _ => rfl) ?_
    (fun hp => horder.table.conn_lt p hp.1 hp.2) (fun hp => (horder.unmade hp).1)
    fun hp => (horder.unmade hp).2
  · intro f fs hf
    obtain ⟨_, rfl⟩ | ⟨_, hf⟩ := update_cases hf
    · exact Or.inr ⟨rfl, rfl⟩
    · exact Or.inl hf
  · intro _ es hes _
    rw [newPCB, Function.update_self] at hes
    cases hes
    rfl

/-- A datagram opens a flow. -/
theorem udpNew_inOutput {src dst : Endpoint} (horder : s.InOrder)
    (hs : Output p s.nextPcb s.pcbs (fun u => (s.threads u).writing p) (fun v => (s.bufs v).data)
      (pendingOn p s.sendQueue.buf) s.heap s.nextConn trace) :
    Output p (s.nextPcb + 1)
      (Function.update s.pcbs s.nextPcb
        (newPCB s.nextPcb ⟨.udp, 0, 0, dst.ip, dst.port, src.ip, src.port, 0⟩))
      (fun u => (s.threads u).writing p) (fun v => (s.bufs v).data) (pendingOn p s.sendQueue.buf)
      s.heap s.nextConn trace :=
  hs.newPcb (Nat.le_refl _) (fun _ _ => Or.inl) (fun htcp => by cases htcp)
    (fun htcp => by cases htcp) (fun hp => horder.table.conn_lt p hp.1 hp.2)
    (fun hp => (horder.unmade hp).1) fun hp => (horder.unmade hp).2

end

theorem CallbackStep.inOutput {cb : Callback} (hloop : s.loop = .lwip)
    (h : CallbackStep cfg s o cb t) (hready : s.OutputReady) (hs : s.InOutput p) :
    t.InOutput p := by
  have hs' : Output p s.nextPcb s.pcbs (fun u => (s.threads u).writing p)
      (fun v => (s.bufs v).data) (pendingOn p s.sendQueue.buf) s.heap s.nextConn s.trace := by
    have := hs
    rwa [Sys.InOutput, hloop] at this
  -- the object keeps its bytes and its connection
  have kept : ∀ {e : Ptr} {es es' : RawState}, s.heap e = some es → es'.p = es.p →
      es'.conn = es.conn → Output p s.nextPcb s.pcbs (fun u => (s.threads u).writing p)
        (fun v => (s.bufs v).data) (pendingOn p s.sendQueue.buf)
        (Function.update s.heap e (some es')) s.nextConn s.trace := by
    intro e es es' hes hp hconn
    refine hs'.setHeap hes ?_
    rintro _ ⟨⟩
    exact ⟨hp, hconn⟩
  have hin := hready.order.table
  cases h with
  | ignored => exact hs
  | accept _ _ =>
      rw [Sys.InOutput, hloop]
      exact .emit (.notify cfg.event (.emit (accept_inOutput hready.order hs')))
  | assertion => exact hs
  | recvClosed _ _ _ hes _ _ => exact .emit (.emit (.emit (kept hes rfl rfl)))
  | recvEmpty _ _ _ hes _ _ =>
      rw [Sys.InOutput, hloop]
      exact .emit (.emit (kept hes rfl rfl))
  | recv _ _ _ hes _ _ _ => exact .emit (.emit (kept hes rfl rfl))
  | fin _ _ _ hes _ => exact .emit (.emit (kept hes rfl rfl))
  | err _ _ _ _ _ => exact .emit (.emit hs'.emit)
  | sentMore ha _ hq hes hconn _ hrun => exact resumed_inOutput ha hq hes hconn hrun hin hs'.emit
  | sentIdle _ _ _ _ _ _ _ => exact hs'.emit
  | sent _ _ _ _ _ _ _ _ => exact .emit (hs'.setPcbs .set)
  | pollMore ha _ hq hes hconn _ hrun => exact resumed_inOutput ha hq hes hconn hrun hin hs'
  | udpEmpty =>
      rw [Sys.InOutput, hloop]
      exact hs'
  | udpKnown _ _ => exact hs'
  | udpNew _ _ => exact .notify cfg.event (udpNew_inOutput hready.order hs')

/-- A posted buffer of an open PCB was passed to a `Write` that has not returned. -/
theorem Sys.OutputReady.posted_buf (h : s.OutputReady) (hopen : OpenTcp s.nextPcb s.pcbs p)
    {w : WriteId} (hw : w ∈ pendingOn p (s.loop.inHand ++ s.sendQueue.buf)) :
    w < s.nextWrite ∧ (s.bufs w).inUse = true := by
  obtain ⟨th, hth⟩ := h.shaken.posted hopen hw
  exact ⟨h.writes.lt th p w _ hth, h.writes.inUse th p w _ hth⟩

/-- The buffer of a new call is no one that the output of `p` is about. -/
theorem called_inOutput {x : Buffer} (hready : s.OutputReady) (hs : s.InOutput p) :
    Output p s.nextPcb s.pcbs (fun u => (s.threads u).writing p)
      (fun v => (Function.update s.bufs s.nextWrite x v).data)
      (pendingOn p (s.loop.inHand ++ s.sendQueue.buf)) s.heap s.nextConn s.trace := by
  have hkept : ∀ {v}, v < s.nextWrite →
      (Function.update s.bufs s.nextWrite x v).data = (s.bufs v).data := by
    intro v hv
    rw [Function.update_of_ne (Nat.ne_of_lt hv)]
  refine hs.setData ?_ ?_
  · intro u w c hu
    exact hkept (hready.writes.lt u p w c (Thread.write_of_writing hu))
  · intro hopen w hw
    exact hkept (hready.posted_buf hopen hw).1

/-- Nor is one whose `Write` has returned. -/
theorem reused_inOutput {w : WriteId} {x : Buffer} (hdone : (s.bufs w).inUse = false)
    (hready : s.OutputReady) (hs : s.InOutput p) :
    Output p s.nextPcb s.pcbs (fun u => (s.threads u).writing p)
      (fun v => (Function.update s.bufs w x v).data)
      (pendingOn p (s.loop.inHand ++ s.sendQueue.buf)) s.heap s.nextConn s.trace := by
  have hkept : ∀ {v}, (s.bufs v).inUse = true →
      (Function.update s.bufs w x v).data = (s.bufs v).data := by
    intro v hv
    have hne : v ≠ w := by
      rintro rfl
      rw [hdone] at hv
      cases hv
    rw [Function.update_of_ne hne]
  refine hs.setData ?_ ?_
  · intro u v c hu
    exact hkept (hready.writes.inUse u p v c (Thread.write_of_writing hu))
  · intro hopen v hv
    exact hkept (hready.posted_buf hopen hv).2

theorem Step.inOutput {a : Act} (h : Step cfg s a t) (hok : AllocOk p s a)
    (hready : s.OutputReady) (hs : s.InOutput p) : t.InOutput p := by
  have select : ∀ {pc : LoopPc}, s.loop = .select → pc.inHand = [] →
      Output p s.nextPcb s.pcbs (fun u => (s.threads u).writing p) (fun v => (s.bufs v).data)
        (pendingOn p (pc.inHand ++ s.sendQueue.buf)) s.heap s.nextConn s.trace := by
    intro pc hloop hpc
    have := hs
    rw [Sys.InOutput, hloop] at this
    rw [hpc]
    exact this
  have idle : ∀ {u : Tid} {x : Thread}, s.threads u = .idle → x.writing p = none →
      (s.threads u).writing p = x.writing p := by
    intro u x hu hx
    rw [hu, hx]
    rfl
  cases h with
  | callRead hidle _ => exact hs.setThread (idle hidle rfl)
  | callWrite hidle _ =>
      exact (called_inOutput hready hs).setThread (idle hidle (Thread.writing_of_unlocked rfl))
  | callClose hidle _ => exact .emit (hs.setThread (idle hidle rfl))
  | callIntercept hidle _ => exact hs.setThread (idle hidle rfl)
  | read hth h => exact h.loopKept.inOutput (h.writesKept hth) hs
  | write hth h => exact h.inOutput hth hready hs
  | @close th q pc pc' s' hth h =>
      have hclosed := h.loopKept.inOutput h.writesKept hs
      refine hclosed.setThread ?_
      rw [h.callsKept.threads, hth]
      rfl
  | closed hth =>
      refine .setThread (hs.setPcbs .set) ?_
      rw [hth]
      rfl
  | closePost hth _ =>
      refine hs.setThread ?_
      rw [hth]
      rfl
  | intercept hth h => exact h.loopKept.inOutput (h.writesKept hth) hs
  | reuse hdone _ => exact reused_inOutput hdone hready hs
  | frame _ => exact hs.emit
  | takeRecved hloop _ => exact select hloop rfl
  | takeClose _ _ _ => exact hs.emit
  | takeCloseUdp _ _ _ => exact hs.emit
  | takeSend hloop hrecv =>
      have := hs
      rw [Sys.InOutput, hloop, (Chan.recv_some hrecv).1] at this
      exact this
  | takeInput hloop _ => exact select hloop rfl
  | loop hpc h => exact h.inOutput hpc hok hready hs
  | callback hloop h => exact h.inOutput hloop hready hs
  | _ => exact hs

/-- In a run in which `pbuf_alloc` succeeds for `p`, its output is what its Writes owe. -/
theorem run_inOutput {tr : List (Sys × Act)} (hrun : (bridge cfg).Run tr s)
    (hok : Machine.Meets (AllocOk p) tr) : s.InOutput p := by
  refine hrun.invariant_under (I := fun s => s.InOutput p) hok reachable_outputReady ?_ ?_
  · refine ⟨nofun, nofun, fun _ => ⟨rfl, nofun⟩, nofun, ?_, ?_, fun _ => each_nil _⟩
    · rintro ⟨⟨hp, _⟩, _⟩
      exact absurd hp (Nat.not_lt_zero p)
    · rintro ⟨⟨hp, _⟩, _⟩
      exact absurd hp (Nat.not_lt_zero p)
  · intro s a t hready _ hs hok hstep
    exact (step_cases hready.order hstep).inOutput hok hready hs

namespace Schedule

/-- `pbuf_alloc` succeeds in the step. -/
def allocates (_ : Sys) : Act → Bool
  | .loop o => o.alloc
  | _ => true

/-- The loop sends what is posted, and the peer acknowledges one byte of it. -/
def sendAndAck (o : Outcomes) : List Act :=
  [.take .send o, .loop o] ++ enterLwip ++ [.callback (.sent 1 1) fine, .loop fine, .loop fine]

/-- The goroutine 0 returns from `Write` on a TCP PCB. -/
def writeReturns : List Act := [.go 0, .go 0, .go 0]

end Schedule

end LwipCs
