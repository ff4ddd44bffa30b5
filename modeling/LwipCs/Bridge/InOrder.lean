import LwipCs.Bridge.Sides

/-!
# Every reachable state is in order

Each step keeps the table, the heap and lwIP's callback arguments in agreement,
and mentions only PCBs that were made. So `step_cases` applies in every reachable
state.
-/

namespace LwipCs

open Interleave

variable {cfg : Config} {s t : Sys} {o : Outcomes}

/-! ### The table -/

theorem LoopKept.inTable {kind : Event → Bool} (h : LoopKept kind s t) (hs : s.InTable) :
    t.InTable := by
  rw [Sys.InTable, h.nextPcb, h.tcpPcbs, h.heap, h.tpcbs, h.nextConn, h.loop]
  exact hs.setPcbs h.pcbs

/-- In `PCB.close` the loop sets `err` before it goes on to the channels. -/
theorem CloseStep.erred {who : Actor} {p : PcbId} {pc pc' : ClosePc}
    (h : CloseStep s who p pc t (some pc')) (herr : pc.erred = true → (s.pcbs p).err = true) :
    pc'.erred = true → (t.pcbs p).err = true := by
  cases h with
  | lock _ => nofun
  | again hset => exact fun _ => hset
  | first _ => nofun
  | setErr =>
      intro _
      simp only [Function.update_self]
  | closeWait _ _ =>
      intro _
      simp only [Function.update_self]
      exact herr rfl
  | _ => exact fun _ => herr rfl

theorem LoopStep.inTable {pc : LoopPc} (hpc : s.loop = pc) (h : LoopStep cfg s o pc t)
    (hs : s.InTable) : t.InTable := by
  have hclosing : s.loop.closing = pc.closing := by rw [hpc]
  have hok : LoopOk s.pcbs s.tcpPcbs pc := hpc ▸ hs.loopOk
  have hacked : ∀ a n, ∀ y' ∈ (s.tpcbs a).map fun x => { x with unacked := x.unacked + n },
      ∃ x, s.tpcbs a = some x ∧ y'.conn = x.conn ∧ (y'.arg = none ∨ y'.arg = x.arg) := by
    intro a n y' hy
    obtain ⟨x, hx, rfl⟩ := Option.map_eq_some_iff.mp hy
    exact ⟨x, hx, rfl, Or.inr rfl⟩
  cases h with
  | sendFailed _ _ _ _ _ =>
      exact .goto (hs.setPcbs .set) (by exact hclosing) (by trivial)
  | sendTcp _ _ _ hes _ _ _ =>
      exact .goto (.setTpcb (.setHeap (hs.setPcbs .set) hes (by exact id) (by rfl)
        (by rfl)) (by exact hacked _ _)) (by exact hclosing) (by trivial)
  | @target p data ctx =>
      refine hs.goto hclosing ?_
      cases ctx <;> exact hok
  | sendEmpty _ => exact hs
  | udpSendEmpty _ => exact hs
  | pushClosed _ => exact hs
  | doneClosed _ => exact hs
  | done _ =>
      exact .goto (hs.setPcbs .set) (by exact hclosing) (by trivial)
  | @close p pc pc' a e k s' hclose =>
      have hkept := hclose.loopKept
      refine (hkept.inTable hs).goto (by rw [hkept.loop, hpc]; rfl) ⟨?_, ?_, hclose.erred hok.2.2⟩
      · rw [hkept.pcbs.flow]
        exact hok.1
      · rw [hkept.pcbs.flow]
        exact hok.2.1
  | @closed p a e k =>
      have hs' : Table s.nextPcb (Function.update s.pcbs p { s.pcbs p with lck := none }) s.tcpPcbs
          s.heap s.tpcbs s.nextConn (.close p .unlock a e k) := by
        rw [← hpc]
        exact hs.setPcbs .set
      have herr : (Function.update s.pcbs p { s.pcbs p with lck := none } p).err = true := by
        rw [Function.update_self]
        exact hok.2.2 rfl
      refine (hs'.freed herr).setTpcb ?_
      intro y hy
      obtain ⟨x, hx, hxy⟩ := Option.bind_eq_some_iff.mp hy
      split at hxy
      · cases hxy
      · cases hxy
        exact ⟨x, hx, rfl, Or.inr rfl⟩
  | _ => exact hs.goto hclosing trivial

theorem CallbackStep.inTable {cb : Callback} (hloop : s.loop = .lwip)
    (h : CallbackStep cfg s o cb t) (hs : s.InTable) : t.InTable := by
  have hclosing : s.loop.closing = none := by
    rw [hloop]
    rfl
  have hs' : Table s.nextPcb s.pcbs s.tcpPcbs s.heap s.tpcbs s.nextConn .lwip := by
    rw [← hloop]
    exact hs
  have hobj : ∀ {a x e p es}, s.tpcbs a = some x → x.arg = some e → s.tcpPcbs e = some p →
      s.heap e = some es → (s.pcbs p).conn = es.conn ∧ (s.pcbs p).pcb = a := by
    intro a x e p es ha harg hp hes
    obtain ⟨q, es', hq, hes', hconn, _, _, hqconn, hqpcb⟩ := hs.callback ha harg
    rw [hp] at hq
    rw [hes] at hes'
    cases hq
    cases hes'
    exact ⟨hqconn.trans hconn.symm, hqpcb⟩
  have hacked : ∀ {a x n}, s.tpcbs a = some x → ∀ y' ∈ some { x with unacked := n },
      ∃ x, s.tpcbs a = some x ∧ y'.conn = x.conn ∧ (y'.arg = none ∨ y'.arg = x.arg) := by
    intro a x n ha y' hy
    cases hy
    exact ⟨x, ha, rfl, Or.inr rfl⟩
  cases h with
  | ignored => exact hs
  | accept _ he =>
      simp only [hloop]
      exact .accept hs' he ⟨rfl, rfl, rfl, rfl, ⟨rfl, rfl, Or.inl rfl⟩, rfl, rfl⟩
  | assertion => exact hs
  | recvClosed _ _ _ hes _ _ =>
      exact .goto (.setHeap hs hes (by exact fun _ => Or.inr rfl) (by rfl) (by rfl))
        (by exact hclosing) (by trivial)
  | recvEmpty _ _ _ hes _ _ => exact .setHeap hs hes (fun _ => Or.inr rfl) rfl rfl
  | @recv a e p x es data ha harg hp hes _ _ _ =>
      obtain ⟨_, htype, hstate⟩ := hs.known e p hp
      refine .goto (.setHeap hs hes (by exact fun _ => Or.inr rfl) (by rfl) (by rfl))
        (by exact hclosing) (by exact ⟨hstate ▸ hp, (hobj ha harg hp hes).1, htype⟩)
  | @fin a e p x es err ha harg hp hes _ =>
      obtain ⟨hpconn, hppcb⟩ := hobj ha harg hp hes
      refine hs.rawClosing hclosing hp hpconn hppcb ?_ ⟨_, Function.update_self .., rfl⟩ ?_
      · intro f hf
        exact Function.update_of_ne hf ..
      · intro b y hb
        by_cases hba : b = a
        · subst hba
          simp only [Function.update_self] at hb
          cases hb
          exact ⟨x, ha, rfl, Or.inl rfl⟩
        · simp only [Function.update_of_ne hba] at hb
          exact ⟨y, hb, rfl, Or.inr ⟨rfl, hba⟩⟩
  | @err a e p x es ha harg hp hes _ =>
      obtain ⟨hpconn, hppcb⟩ := hobj ha harg hp hes
      refine hs.rawClosing hclosing hp hpconn hppcb (fun _ _ => rfl) ⟨es, hes, rfl⟩ ?_
      intro b y hb
      by_cases hba : b = a
      · subst hba
        simp only [Function.update_self] at hb
        cases hb
      · simp only [Function.update_of_ne hba] at hb
        exact ⟨y, hb, rfl, Or.inr ⟨rfl, hba⟩⟩
  | sentMore ha _ _ hes _ _ _ =>
      exact .goto (.setTpcb (.setHeap hs hes (by exact id) (by rfl) (by rfl)) (by exact hacked ha))
        (by exact hclosing) (by trivial)
  | sentIdle ha _ _ _ _ _ _ =>
      exact .goto (.setTpcb hs (by exact hacked ha)) (by exact hclosing) (by trivial)
  | @sent a e p x es len ha harg hp hes _ _ _ _ =>
      obtain ⟨hpconn, hppcb⟩ := hobj ha harg hp hes
      refine .goto (.setPcbs (.setTpcb hs (by exact hacked ha)) .set)
        (by exact hclosing) ?_
      refine ⟨hp, ?_, ?_⟩
      · simp only [Function.update_self]
        exact hpconn
      · simp only [Function.update_self]
        exact hppcb
  | pollMore ha _ _ hes _ _ _ =>
      exact .goto (.setTpcb (.setHeap hs hes (by exact id) (by rfl) (by rfl)) (by exact hacked ha))
        (by exact hclosing) (by trivial)
  | udpEmpty => exact hs
  | udpKnown _ _ => exact hs.goto hclosing trivial
  | udpNew _ _ => exact .goto (.addPcb hs' rfl) rfl trivial

theorem Step.inTable {a : Act} (h : Step cfg s a t) (hs : s.InTable) : t.InTable := by
  by_cases ha : a.ofGoroutine = true
  · exact (h.loopKept ha).inTable hs
  cases h with
  | frame _ => exact hs
  | takeRecved hloop _ => exact hs.goto (by rw [hloop]; rfl) trivial
  | takeClose _ _ _ =>
      refine hs.setTpcb ?_
      intro y hy
      obtain ⟨x, hx, hxy⟩ := Option.bind_eq_some_iff.mp hy
      split at hxy
      · cases hxy
      · cases hxy
        exact ⟨x, hx, rfl, Or.inr rfl⟩
  | takeCloseUdp _ _ _ => exact hs
  | takeSend hloop _ => exact hs.goto (by rw [hloop]; rfl) trivial
  | takeInput hloop _ => exact hs.goto (by rw [hloop]; rfl) trivial
  | loop hpc h => exact h.inTable hpc hs
  | callback hloop h => exact h.inTable hloop hs
  | release _ _ _ => exact hs.setTpcb nofun
  | _ => exact absurd rfl ha

/-! ### The PCBs in use -/

theorem ReadStep.inUse {th : Tid} {p : PcbId} {len : Nat} {pc : ReadPc}
    (hth : s.threads th = .read p len pc) (h : ReadStep s th p len pc t) (hs : s.InUse) :
    t.InUse := by
  have hp : Thread.Ok s.nextPcb s.pcbs (.read p len pc) := hth ▸ hs.threads th
  cases h with
  | intercepted _ => exact hs
  | tooSmall _ _ => exact hs
  | chunk _ _ _ htype => exact hs.setThread ⟨hp, htype⟩
  | datagram _ _ _ _ => exact hs.setThread trivial
  | closed _ => exact hs.setThread trivial
  | errRet _ => exact hs.setThread trivial
  | nilRet _ => exact hs.setThread trivial
  | credit hsend =>
      obtain ⟨_, _, hbuf, _⟩ := Chan.send_done hsend
      refine { hs.idle th with recveds := ?_ }
      intro r hr
      rw [hbuf] at hr
      rcases List.mem_append.mp hr with hr | hr
      · exact hs.recveds r hr
      · cases List.mem_singleton.mp hr
        exact hp
  | _ => exact hs.setThread hp

theorem Known.enqueue {nextPcb : PcbId} {pcbs : PcbId → PCB} {threads : Tid → Thread}
    {q q' : Chan SendEntry} {closes : List PcbId} {recveds : List RecvedEntry} {loop : LoopPc}
    {udpPcbs : Key → Option PcbId} {p : PcbId} {w : WriteId}
    (h : Known nextPcb pcbs threads q.buf closes recveds loop udpPcbs)
    (hsend : q.send ⟨p, w⟩ = .done q') (hp : p < nextPcb) :
    Known nextPcb pcbs threads q'.buf closes recveds loop udpPcbs := by
  obtain ⟨_, _, hbuf, _⟩ := Chan.send_done hsend
  refine { h with sends := ?_ }
  intro entry hentry
  rw [hbuf] at hentry
  rcases List.mem_append.mp hentry with hentry | hentry
  · exact h.sends entry hentry
  · cases List.mem_singleton.mp hentry
    exact hp

theorem WriteStep.inUse {th : Tid} {p : PcbId} {w : WriteId} {pc : WritePc}
    (hth : s.threads th = .write p w pc) (h : WriteStep s th p w pc t) (hs : s.InUse) :
    t.InUse := by
  have hp : Thread.Ok s.nextPcb s.pcbs (.write p w pc) := hth ▸ hs.threads th
  have made : ∀ {x : PCB}, x.type = (s.pcbs p).type → Made s.nextPcb s.pcbs .tcp p →
      Made s.nextPcb (Function.update s.pcbs p x) .tcp p :=
    fun htype h => h.mono (Extends.setPcb htype)
  cases h with
  | empty _ => exact hs.setThread trivial
  | closed _ _ => exact hs.setThread hp
  | tcp _ _ htype => exact hs.setThread ⟨hp, htype⟩
  | udp _ _ htype => exact hs.setThread ⟨hp, htype⟩
  | lock _ => exact (hs.setPcb (by rfl)).setThread (made rfl hp)
  | enqueue hsend => exact .enqueue (.setThread hs (by exact hp)) hsend hp.1
  | wait _ => exact (hs.setPcb (by rfl)).setThread (made rfl hp)
  | unlock => exact (hs.setPcb (by rfl)).setThread hp.1
  | post hsend => exact .enqueue (.setThread hs (by exact hp.1)) hsend hp.1
  | ret => exact hs.setThread trivial

theorem CloseStep.inUse {who : Actor} {p : PcbId} {pc : ClosePc} {next : Option ClosePc}
    (h : CloseStep s who p pc t next) (hs : s.InUse) : t.InUse ∧ t.nextPcb = s.nextPcb ∧
      t.threads = s.threads ∧ t.loop = s.loop := by
  cases h with
  | lock _ => exact ⟨hs.setPcb (by rfl), rfl, rfl, rfl⟩
  | setErr => exact ⟨hs.setPcb (by rfl), rfl, rfl, rfl⟩
  | closeWait _ _ => exact ⟨hs.setPcb (by rfl), rfl, rfl, rfl⟩
  | unlock => exact ⟨hs.setPcb (by rfl), rfl, rfl, rfl⟩
  | _ => exact ⟨hs, rfl, rfl, rfl⟩

theorem InterceptStep.inUse {th : Tid} {p : PcbId} {c : Nat} {pc : InterPc}
    (hth : s.threads th = .intercept p c pc) (h : InterceptStep s th p c pc t) (hs : s.InUse) :
    t.InUse := by
  have hp : p < s.nextPcb := by
    have := hs.threads th
    rwa [hth] at this
  cases h with
  | lock _ => exact (hs.setPcb (by rfl)).setThread hp
  | twice _ => exact (hs.setPcb (by rfl)).setThread trivial
  | test _ => exact hs.setThread hp
  | set => exact (hs.setPcb (by rfl)).setThread hp
  | closeOld _ => exact hs.setThread hp
  | closedOld _ => exact hs
  | swap => exact (hs.setPcb (by rfl)).setThread hp
  | unlock => exact (hs.setPcb (by rfl)).setThread trivial

theorem LoopStep.inUse {pc : LoopPc} (hpc : s.loop = pc) (h : LoopStep cfg s o pc t)
    (hs : s.InUse) : t.InUse := by
  have hok : pc.Ok s.nextPcb s.pcbs := hpc ▸ hs.loop
  cases h with
  | sendFailed _ _ _ _ _ => exact .goto (hs.setPcb (by rfl)) (by trivial)
  | sendTcp _ _ _ _ _ _ _ => exact .goto (hs.setPcb (by rfl)) (by trivial)
  | passed _ htype => exact hs.goto ⟨hok, htype⟩
  | @target p data ctx =>
      refine hs.goto ?_
      cases ctx <;> exact hok
  | sendEmpty _ => exact hs
  | udpSendEmpty _ => exact hs
  | pushClosed _ => exact hs
  | doneClosed _ => exact hs
  | done _ => exact .goto (hs.setPcb (by rfl)) (by trivial)
  | @close p pc pc' a e k s' hclose =>
      obtain ⟨hs', hnext, hthreads, hloop⟩ := hclose.inUse hs
      refine hs'.goto ?_
      have := hs'.loop
      rw [hloop, hpc] at this
      exact this
  | closed => exact .goto (hs.setPcb (by rfl)) (by trivial)
  | _ => exact hs.goto trivial

theorem CallbackStep.inUse {cb : Callback} (h : CallbackStep cfg s o cb t) (hs : s.InUse)
    (htable : s.InTable) : t.InUse := by
  have made : ∀ {e p}, s.tcpPcbs e = some p → Made s.nextPcb s.pcbs .tcp p :=
    fun hp => ⟨(htable.known _ _ hp).1, (htable.known _ _ hp).2.1⟩
  cases h with
  | ignored => exact hs
  | accept _ _ => exact hs.mono Extends.newPcb
  | assertion => exact hs
  | recvClosed _ _ _ _ _ _ => exact hs.goto trivial
  | recvEmpty _ _ _ _ _ _ => exact hs
  | recv _ _ hp _ _ _ _ => exact hs.goto (made hp)
  | fin _ _ hp _ _ => exact hs.goto (made hp)
  | err _ _ hp _ _ => exact hs.goto (made hp)
  | sentMore _ _ _ _ _ _ _ => exact hs.goto trivial
  | sentIdle _ _ _ _ _ _ _ => exact hs.goto trivial
  | sent _ _ hp _ _ _ _ _ =>
      exact .goto (hs.setPcb (by rfl)) ((made hp).mono (Extends.setPcb rfl))
  | pollMore _ _ _ _ _ _ _ => exact hs.goto trivial
  | udpEmpty => exact hs
  | udpKnown hp _ => exact hs.goto (hs.udp _ _ hp)
  | @udpNew src dst data hp hdata =>
      have hnew : Made (s.nextPcb + 1) (Function.update s.pcbs s.nextPcb
          (newPCB s.nextPcb ⟨.udp, 0, 0, dst.ip, dst.port, src.ip, src.port, 0⟩)) .udp
          s.nextPcb := by
        refine ⟨Nat.lt_succ_self _, ?_⟩
        rw [Function.update_self]
        rfl
      refine { hs.mono Extends.newPcb with loop := hnew, udp := ?_ }
      intro key p hkey
      by_cases hsame : key = udpKey cfg.host src
      · subst hsame
        simp only [Function.update_self] at hkey
        cases hkey
        exact hnew
      · simp only [Function.update_of_ne hsame] at hkey
        exact (hs.udp key p hkey).mono Extends.newPcb

theorem Step.inUse {a : Act} (h : Step cfg s a t) (hs : s.InUse) (htable : s.InTable) :
    t.InUse := by
  cases h with
  | callRead _ hp => exact hs.setThread hp
  | callWrite _ hp => exact hs.setThread hp
  | callClose _ hp => exact hs.setThread hp
  | callIntercept _ hp => exact hs.setThread hp
  | read hth h => exact h.inUse hth hs
  | write hth h => exact h.inUse hth hs
  | @close th p pc pc' s' hth h =>
      obtain ⟨hs', hnext, hthreads, _⟩ := h.inUse hs
      refine hs'.setThread ?_
      have := hs'.threads th
      rw [hthreads, hth] at this
      exact this
  | @closed th p hth =>
      have := hs.threads th
      rw [hth] at this
      exact (hs.setPcb (by rfl)).setThread this
  | @closePost th p q hth hsend =>
      obtain ⟨_, _, hbuf, _⟩ := Chan.send_done hsend
      have hp := hs.threads th
      rw [hth] at hp
      refine { hs.idle th with closes := ?_ }
      intro p' hp'
      rw [hbuf] at hp'
      rcases List.mem_append.mp hp' with hp' | hp'
      · exact hs.closes p' hp'
      · cases List.mem_singleton.mp hp'
        exact hp
  | intercept hth h => exact h.inUse hth hs
  | reuse _ _ => exact hs
  | frame _ => exact hs
  | userRecv _ => exact hs
  | takeRecved _ hrecv =>
      obtain ⟨hbuf, _⟩ := Chan.recv_some hrecv
      refine { hs with recveds := fun r hr => hs.recveds r (by simp [hbuf, hr]), loop := ?_ }
      exact hs.recveds _ (by simp [hbuf])
  | takeClose _ hrecv _ =>
      obtain ⟨hbuf, _⟩ := Chan.recv_some hrecv
      exact { hs with closes := fun p hp => hs.closes p (by simp [hbuf, hp]) }
  | @takeCloseUdp o p q _ hrecv _ =>
      obtain ⟨hbuf, _⟩ := Chan.recv_some hrecv
      refine { hs with closes := fun p hp => hs.closes p (by simp [hbuf, hp]), udp := ?_ }
      intro key p' hkey
      by_cases hsame : key = udpKey cfg.host (s.pcbs p).remoteEnd
      · subst hsame
        simp only [Function.update_self] at hkey
        cases hkey
      · simp only [Function.update_of_ne hsame] at hkey
        exact hs.udp key p' hkey
  | takeSend _ hrecv =>
      obtain ⟨hbuf, _⟩ := Chan.recv_some hrecv
      refine { hs with sends := fun entry h => hs.sends entry (by simp [hbuf, h]), loop := ?_ }
      exact hs.sends _ (by simp [hbuf])
  | takeInput _ _ => exact hs.goto trivial
  | loop hpc h => exact h.inUse hpc hs
  | callback _ h => exact h.inUse hs htable
  | release _ _ _ => exact hs

/-! ### Reachable states -/

theorem init_inOrder (cfg : Config) : (Sys.init cfg).InOrder where
  table := by constructor <;> intros <;> trivial
  known := by constructor <;> intros <;> trivial

theorem Step.inOrder {a : Act} (h : Step cfg s a t) (hs : s.InOrder) : t.InOrder :=
  ⟨h.inTable hs.table, h.inUse hs.known hs.table⟩

theorem reachable_inOrder (h : (bridge cfg).Reachable s) : s.InOrder :=
  h.invariant (init_inOrder cfg) fun _ _ _ hs hstep => (step_cases hs hstep).inOrder hs

/-- An open TCP PCB is in the table while the loop closes none. -/
theorem Sys.InTable.entered (h : s.InTable) {p : PcbId} (hp : Made s.nextPcb s.pcbs .tcp p)
    (hopen : (s.pcbs p).err = false) (hloop : s.loop.closing = none) :
    s.tcpPcbs (s.pcbs p).state = some p := by
  rcases h.isOpen p hp.1 hp.2 hopen with hin | ⟨e, hclosing⟩
  · exact hin
  · rw [hloop] at hclosing
    cases hclosing

end LwipCs
