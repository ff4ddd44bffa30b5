import LwipCs.Bridge.InOrder

/-!
# Registered connections and the pcbs lwIP has released

An entry leaves `tcpPcbs` inside `cs_tcp_raw_close` only. The application's close calls
`tcp_close` without it, so lwIP may release a pcb whose callbacks are still registered;
then no callback is left that could remove the entry and free the object.
-/

namespace LwipCs

open Interleave

/-- The pcb of a registered connection is live. -/
def LiveEntries (pcbs : PcbId → PCB) (tcpPcbs : Ptr → Option PcbId)
    (tpcbs : Ptr → Option TcpPcb) : Prop :=
  ∀ e p, tcpPcbs e = some p → ∃ x, tpcbs (pcbs p).pcb = some x ∧ x.conn = (pcbs p).conn

/-- No connection whose pcb lwIP has released is registered, and outside `go_tcp_close_h`
none has a state object. -/
structure Sys.NoneDead (s : Sys) : Prop where
  entries : LiveEntries s.pcbs s.tcpPcbs s.tpcbs
  objects : s.loop.closing = none → ∀ e es, s.heap e = some es →
    ∃ x, s.tpcbs es.pcb = some x ∧ x.conn = es.conn

/-- lwIP releases a pcb, in the `tcp_close` of the application's close or later, only
when its callbacks were cleared. -/
def ReleasesCleared (s : Sys) : Act → Prop
  | .take .close o => o.frees = true → ∀ c rest x, s.closeQueue.buf = c :: rest →
      (s.pcbs c).type = .tcp → s.tpcbs (s.pcbs c).pcb = some x → x.arg = none
  | .release a => ∀ x, s.tpcbs a = some x → x.arg = none
  | _ => True

/-- A live pcb of a registered connection has its callbacks, and one that
`cs_tcp_raw_close` is about to close has not. -/
structure Armed (pcbs : PcbId → PCB) (tcpPcbs : Ptr → Option PcbId)
    (tpcbs : Ptr → Option TcpPcb) (loop : LoopPc) : Prop where
  entry : ∀ e p x, tcpPcbs e = some p → tpcbs (pcbs p).pcb = some x →
    x.conn = (pcbs p).conn → x.arg = some e
  closing : ∀ p pc a e k x, loop = .close p pc a e k → tpcbs a = some x → x.arg = none

/-- `Armed` of a state of the system. -/
abbrev Sys.InArmed (s : Sys) : Prop := Armed s.pcbs s.tcpPcbs s.tpcbs s.loop

section

variable {nextPcb : PcbId} {pcbs : PcbId → PCB} {tcpPcbs : Ptr → Option PcbId}
variable {heap : Ptr → Option RawState} {tpcbs : Ptr → Option TcpPcb} {nextConn : ConnId}
variable {loop : LoopPc}

/-- The entry of a connection is the only one with its pcb. -/
theorem Table.other_entry (h : Table nextPcb pcbs tcpPcbs heap tpcbs nextConn loop) {e f : Ptr}
    {p q : PcbId} (hp : tcpPcbs e = some p) (hq : tcpPcbs f = some q)
    (hconn : (pcbs q).conn = (pcbs p).conn) : f = e := by
  obtain ⟨hplt, hptype, hpstate⟩ := h.known e p hp
  obtain ⟨hqlt, hqtype, hqstate⟩ := h.known f q hq
  have hqp := h.conn_inj q p hqlt hplt hqtype hptype hconn
  rw [← hqstate, ← hpstate, hqp]

namespace Armed

theorem setPcbs (h : Armed pcbs tcpPcbs tpcbs loop) {pcbs' : PcbId → PCB}
    (hkept : PcbsKept pcbs pcbs') : Armed pcbs' tcpPcbs tpcbs loop := by
  refine { h with entry := ?_ }
  simpa only [hkept.flow] using h.entry

/-- lwIP's data of a pcb changes, but not its callbacks, or the pcb goes. -/
theorem setTpcb (h : Armed pcbs tcpPcbs tpcbs loop) {a : Ptr} {y : Option TcpPcb}
    (hy : ∀ y' ∈ y, ∃ x, tpcbs a = some x ∧ y'.conn = x.conn ∧ y'.arg = x.arg) :
    Armed pcbs tcpPcbs (Function.update tpcbs a y) loop := by
  have old : ∀ b y', Function.update tpcbs a y b = some y' →
      ∃ x, tpcbs b = some x ∧ y'.conn = x.conn ∧ y'.arg = x.arg := by
    intro b y' hb
    by_cases hab : b = a
    · subst hab
      rw [Function.update_self] at hb
      exact hy y' hb
    · rw [Function.update_of_ne hab] at hb
      exact ⟨y', hb, rfl, rfl⟩
  constructor
  · intro e p y' hp hb hconn
    obtain ⟨x, hx, hsame, harg⟩ := old _ y' hb
    rw [harg]
    exact h.entry e p x hp hx (hsame.symm.trans hconn)
  · intro p pc b e k y' hloop hb
    obtain ⟨x, hx, _, harg⟩ := old b y' hb
    rw [harg]
    exact h.closing p pc b e k x hloop hx

/-- The loop moves between places that close no PCB. -/
theorem goto (h : Armed pcbs tcpPcbs tpcbs loop) {pc : LoopPc}
    (hpc : ∀ p c a e k, pc ≠ .close p c a e k) : Armed pcbs tcpPcbs tpcbs pc :=
  { h with closing := fun p c a e k _ hloop => absurd hloop (hpc p c a e k) }

theorem newPcb (h : Armed pcbs tcpPcbs tpcbs loop) {x : PCB}
    (hknown : ∀ e p, tcpPcbs e = some p → p < nextPcb) :
    Armed (Function.update pcbs nextPcb x) tcpPcbs tpcbs loop := by
  refine { h with entry := ?_ }
  intro e p y hp
  rw [Function.update_of_ne (Nat.ne_of_lt (hknown e p hp))]
  exact h.entry e p y hp

/-- lwIP accepts a connection with a new pcb. -/
theorem enter (h : Armed pcbs tcpPcbs tpcbs loop)
    (htable : Table nextPcb pcbs tcpPcbs heap tpcbs nextConn loop) {a e : Ptr} {x : PCB}
    {y : TcpPcb} (hpcb : x.pcb = a) (hy : y.conn = nextConn ∧ y.arg = some e)
    (hloop : loop = .lwip) :
    Armed (Function.update pcbs nextPcb x) (Function.update tcpPcbs e (some nextPcb))
      (Function.update tpcbs a (some y)) loop := by
  constructor
  · intro f q z hq hz hconn
    by_cases hfe : f = e
    · subst hfe
      rw [Function.update_self] at hq
      cases hq
      rw [Function.update_self, hpcb, Function.update_self] at hz
      cases hz
      exact hy.2
    · rw [Function.update_of_ne hfe] at hq
      obtain ⟨hlt, htype, _⟩ := htable.known f q hq
      rw [Function.update_of_ne (Nat.ne_of_lt hlt)] at hz hconn
      by_cases hqa : (pcbs q).pcb = a
      · rw [hqa, Function.update_self] at hz
        cases hz
        exact absurd (hconn.symm.trans hy.1) (Nat.ne_of_lt (htable.conn_lt q hlt htype))
      · rw [Function.update_of_ne hqa] at hz
        exact h.entry f q z hq hz hconn
  · rw [hloop]
    nofun

/-- `cs_tcp_raw_close` clears the callbacks and forgets the entry. -/
theorem leave (h : Armed pcbs tcpPcbs tpcbs loop)
    (htable : Table nextPcb pcbs tcpPcbs heap tpcbs nextConn loop) {a e : Ptr} {p : PcbId}
    {x : TcpPcb} {y : Option TcpPcb} {k : ConnId} (hp : tcpPcbs e = some p)
    (hconn : x.conn = (pcbs p).conn) (hy : ∀ y' ∈ y, y'.conn = x.conn ∧ y'.arg = none) :
    Armed pcbs (Function.update tcpPcbs e none) (Function.update tpcbs a y)
      (.close p .lock a e k) := by
  constructor
  · intro f q y' hq hb hsame
    by_cases hfe : f = e
    · subst hfe
      rw [Function.update_self] at hq
      cases hq
    rw [Function.update_of_ne hfe] at hq
    by_cases hqa : (pcbs q).pcb = a
    · rw [hqa, Function.update_self] at hb
      have hx := (hy y' hb).1
      exact absurd (htable.other_entry hp hq (hsame.symm.trans (hx.trans hconn))) hfe
    · rw [Function.update_of_ne hqa] at hb
      exact h.entry f q y' hq hb hsame
  · intro q pc b f k' y' hloop hb
    cases hloop
    rw [Function.update_self] at hb
    exact (hy y' hb).2

end Armed

namespace LiveEntries

theorem setPcbs (h : LiveEntries pcbs tcpPcbs tpcbs) {pcbs' : PcbId → PCB}
    (hkept : PcbsKept pcbs pcbs') : LiveEntries pcbs' tcpPcbs tpcbs := by
  simpa only [LiveEntries, hkept.flow] using h

/-- lwIP's data of a pcb changes, but not its connection. -/
theorem setTpcb (h : LiveEntries pcbs tcpPcbs tpcbs) {a : Ptr} {y : Option TcpPcb}
    (hy : ∀ x, tpcbs a = some x → ∃ y', y = some y' ∧ y'.conn = x.conn) :
    LiveEntries pcbs tcpPcbs (Function.update tpcbs a y) := by
  intro e p hp
  obtain ⟨x, hx, hconn⟩ := h e p hp
  by_cases hpa : (pcbs p).pcb = a
  · obtain ⟨y', rfl, hsame⟩ := hy x (hpa ▸ hx)
    rw [hpa, Function.update_self]
    exact ⟨y', rfl, hsame.trans hconn⟩
  · rw [Function.update_of_ne hpa]
    exact ⟨x, hx, hconn⟩

theorem newPcb (h : LiveEntries pcbs tcpPcbs tpcbs) {x : PCB}
    (hknown : ∀ e p, tcpPcbs e = some p → p < nextPcb) :
    LiveEntries (Function.update pcbs nextPcb x) tcpPcbs tpcbs := by
  intro e p hp
  rw [Function.update_of_ne (Nat.ne_of_lt (hknown e p hp))]
  exact h e p hp

/-- lwIP accepts a connection with a new pcb. -/
theorem enter (h : LiveEntries pcbs tcpPcbs tpcbs) {a e : Ptr} {x : PCB} {y : TcpPcb}
    (hknown : ∀ e p, tcpPcbs e = some p → p < nextPcb) (ha : tpcbs a = none) (hpcb : x.pcb = a)
    (hconn : y.conn = x.conn) :
    LiveEntries (Function.update pcbs nextPcb x) (Function.update tcpPcbs e (some nextPcb))
      (Function.update tpcbs a (some y)) := by
  intro f q hq
  by_cases hfe : f = e
  · subst hfe
    rw [Function.update_self] at hq
    cases hq
    rw [Function.update_self, hpcb, Function.update_self]
    exact ⟨y, rfl, hconn⟩
  · rw [Function.update_of_ne hfe] at hq
    obtain ⟨z, hz, hzconn⟩ := h f q hq
    have hne : (pcbs q).pcb ≠ a := by
      intro hqa
      rw [hqa, ha] at hz
      cases hz
    rw [Function.update_of_ne (Nat.ne_of_lt (hknown f q hq)), Function.update_of_ne hne]
    exact ⟨z, hz, hzconn⟩

/-- The entry of a connection goes, and so may its pcb. -/
theorem leave (h : LiveEntries pcbs tcpPcbs tpcbs)
    (htable : Table nextPcb pcbs tcpPcbs heap tpcbs nextConn loop) {a e : Ptr} {p : PcbId}
    {x : TcpPcb} {y : Option TcpPcb} (hp : tcpPcbs e = some p) (ha : tpcbs a = some x)
    (hconn : x.conn = (pcbs p).conn) :
    LiveEntries pcbs (Function.update tcpPcbs e none) (Function.update tpcbs a y) := by
  intro f q hq
  by_cases hfe : f = e
  · subst hfe
    rw [Function.update_self] at hq
    cases hq
  rw [Function.update_of_ne hfe] at hq
  obtain ⟨z, hz, hzconn⟩ := h f q hq
  have hne : (pcbs q).pcb ≠ a := by
    intro hqa
    rw [hqa, ha] at hz
    cases hz
    exact hfe (htable.other_entry hp hq (hzconn.symm.trans hconn))
  rw [Function.update_of_ne hne]
  exact ⟨z, hz, hzconn⟩

/-- Releasing a pcb is harmless exactly if its callbacks were cleared. -/
theorem release_iff (h : LiveEntries pcbs tcpPcbs tpcbs) (harmed : Armed pcbs tcpPcbs tpcbs loop)
    (htable : Table nextPcb pcbs tcpPcbs heap tpcbs nextConn loop) {a : Ptr} :
    LiveEntries pcbs tcpPcbs (Function.update tpcbs a none) ↔
      ∀ x, tpcbs a = some x → x.arg = none := by
  constructor
  · intro hafter x hx
    cases harg : x.arg with
    | none => rfl
    | some e =>
        obtain ⟨p, hp, _, hpcb⟩ := htable.registered a x e hx harg
        obtain ⟨y, hy, _⟩ := hafter e p hp
        rw [hpcb, Function.update_self] at hy
        cases hy
  · intro hcleared e p hp
    obtain ⟨x, hx, hconn⟩ := h e p hp
    have hne : (pcbs p).pcb ≠ a := by
      rintro rfl
      have harg := harmed.entry e p x hp hx hconn
      rw [hcleared x hx] at harg
      cases harg
    rw [Function.update_of_ne hne]
    exact ⟨x, hx, hconn⟩

/-- `tcp_close` may release the pcb. -/
theorem close_iff (h : LiveEntries pcbs tcpPcbs tpcbs) (harmed : Armed pcbs tcpPcbs tpcbs loop)
    (htable : Table nextPcb pcbs tcpPcbs heap tpcbs nextConn loop) {a : Ptr} {frees : Bool} :
    LiveEntries pcbs tcpPcbs (Function.update tpcbs a ((tpcbs a).bind fun x =>
      if frees then none else some { x with closing := true })) ↔
        (frees = true → ∀ x, tpcbs a = some x → x.arg = none) := by
  cases frees with
  | true =>
      have hnone : ((tpcbs a).bind fun x =>
          if true then none else some { x with closing := true }) = none := by
        cases tpcbs a <;> rfl
      rw [hnone, h.release_iff harmed htable]
      exact ⟨fun h _ => h, fun h => h rfl⟩
  | false =>
      refine iff_of_true (h.setTpcb ?_) nofun
      intro x hx
      exact ⟨{ x with closing := true }, by rw [hx]; rfl, rfl⟩

end LiveEntries

end

variable {cfg : Config} {s t : Sys} {o : Outcomes}

/-- The connection of a callback is that of the PCB it finds. -/
theorem Sys.InTable.callback_conn (h : s.InTable) {a e : Ptr} {x : TcpPcb} {p : PcbId}
    (ha : s.tpcbs a = some x) (harg : x.arg = some e) (hp : s.tcpPcbs e = some p) :
    x.conn = (s.pcbs p).conn := by
  obtain ⟨q, hq, hconn, _⟩ := h.registered a x e ha harg
  rw [hp] at hq
  cases hq
  exact hconn.symm

theorem LoopKept.armed {kind : Event → Bool} (h : LoopKept kind s t) (hs : s.InArmed) :
    t.InArmed := by
  rw [Sys.InArmed, h.tcpPcbs, h.tpcbs, h.loop]
  exact hs.setPcbs h.pcbs

theorem LoopStep.armed {pc : LoopPc} (hpc : s.loop = pc) (h : LoopStep cfg s o pc t)
    (hs : s.InArmed) : t.InArmed := by
  cases h with
  | creditClosed _ => exact hs.goto nofun
  | credit _ => exact hs.goto nofun
  | dropped _ => exact hs.goto nofun
  | passed _ _ => exact hs.goto nofun
  | sendEmpty _ => exact hs
  | udpSendEmpty _ => exact hs
  | sendFailed _ _ _ _ _ => exact (hs.setPcbs .set).goto nofun
  | @sendTcp p w es run _ _ _ _ _ _ _ =>
      have hsent : Armed s.pcbs s.tcpPcbs (Function.update s.tpcbs (s.pcbs p).pcb _) s.loop :=
        hs.setTpcb (y := (s.tpcbs (s.pcbs p).pcb).map fun x =>
            { x with unacked := x.unacked + run.wrote.flatten.length }) (by
          intro y' hy
          obtain ⟨x, hx, rfl⟩ := Option.map_eq_some_iff.mp hy
          exact ⟨x, hx, rfl, rfl⟩)
      exact (hsent.setPcbs .set).goto nofun
  | sendUdp _ _ _ => exact hs.goto nofun
  | sendUdpFailed _ _ _ => exact hs.goto nofun
  | post _ => exact hs.goto nofun
  | netif => exact hs.goto nofun
  | netifNone => exact hs.goto nofun
  | leave => exact hs.goto nofun
  | target => exact hs.goto nofun
  | pushClosed _ => exact hs
  | push _ => exact hs.goto nofun
  | pushUdp _ => exact hs.goto nofun
  | doneClosed _ => exact hs
  | done _ => exact (hs.setPcbs .set).goto nofun
  | @close p pc pc' a e k s' hclose =>
      have hs' := hclose.loopKept.armed hs
      refine { hs' with closing := ?_ }
      rintro _ _ _ _ _ x ⟨⟩
      refine hs'.closing p pc a e k x ?_
      rw [hclose.loopKept.loop, hpc]
  | @closed p a e k =>
      have hreleased : Armed s.pcbs s.tcpPcbs (Function.update s.tpcbs a _) s.loop :=
        hs.setTpcb (y := (s.tpcbs a).bind fun x =>
            if o.frees then none else some { x with closing := true }) (by
          intro y' hy
          obtain ⟨x, hx, hy⟩ := Option.bind_eq_some_iff.mp hy
          split at hy
          · cases hy
          · cases hy
            exact ⟨x, hx, rfl, rfl⟩)
      exact (hreleased.setPcbs .set).goto nofun

theorem CallbackStep.armed {cb : Callback} (hloop : s.loop = .lwip)
    (h : CallbackStep cfg s o cb t) (hs : s.InArmed) (hin : s.InTable) : t.InArmed := by
  have acked : ∀ {a x n}, s.tpcbs a = some x →
      Armed s.pcbs s.tcpPcbs (Function.update s.tpcbs a (some { x with unacked := n })) s.loop := by
    intro a x n ha
    refine hs.setTpcb ?_
    rintro _ ⟨⟩
    exact ⟨x, ha, rfl, rfl⟩
  cases h with
  | ignored => exact hs
  | accept _ _ => exact hs.enter hin rfl ⟨rfl, rfl⟩ hloop
  | assertion => exact hs
  | recvClosed _ _ _ _ _ _ => exact hs.goto nofun
  | recvEmpty _ _ _ _ _ _ => exact hs
  | recv _ _ _ _ _ _ _ => exact hs.goto nofun
  | fin ha harg hp _ _ =>
      refine hs.leave hin hp (hin.callback_conn ha harg hp) ?_
      rintro _ ⟨⟩
      exact ⟨rfl, rfl⟩
  | err ha harg hp _ _ => exact hs.leave hin hp (hin.callback_conn ha harg hp) nofun
  | sentMore ha _ _ _ _ _ _ => exact (acked ha).goto nofun
  | sentIdle ha _ _ _ _ _ _ => exact (acked ha).goto nofun
  | sent ha _ _ _ _ _ _ _ => exact ((acked ha).setPcbs .set).goto nofun
  | pollMore ha _ _ _ _ _ _ => exact (acked ha).goto nofun
  | udpEmpty => exact hs
  | udpKnown _ _ => exact hs.goto nofun
  | udpNew _ _ => exact (hs.newPcb fun e p hp => (hin.known e p hp).1).goto nofun

theorem Step.armed {a : Act} (h : Step cfg s a t) (hs : s.InArmed) (hin : s.InOrder) :
    t.InArmed := by
  by_cases ha : a.ofGoroutine = true
  · exact (h.loopKept ha).armed hs
  cases h with
  | frame _ => exact hs
  | takeRecved _ _ => exact hs.goto nofun
  | takeClose _ _ _ =>
      refine hs.setTpcb ?_
      intro y' hy
      obtain ⟨x, hx, hy⟩ := Option.bind_eq_some_iff.mp hy
      split at hy
      · cases hy
      · cases hy
        exact ⟨x, hx, rfl, rfl⟩
  | takeCloseUdp _ _ _ => exact hs
  | takeSend _ _ => exact hs.goto nofun
  | takeInput _ _ => exact hs.goto nofun
  | loop hpc h => exact h.armed hpc hs
  | callback hloop h => exact h.armed hloop hs hin.table
  | release _ _ _ => exact hs.setTpcb nofun
  | _ => exact absurd rfl ha

theorem reachable_armed (h : (bridge cfg).Reachable s) : s.InArmed := by
  refine h.invariant_of reachable_inOrder ⟨nofun, nofun⟩ ?_
  intro s a t hs _ harmed hstep
  exact (step_cases hs hstep).armed harmed hs

/-! ### Live entries -/

/-- `LiveEntries` of a state of the system. -/
abbrev Sys.InLive (s : Sys) : Prop := LiveEntries s.pcbs s.tcpPcbs s.tpcbs

/-- An object outside `go_tcp_close_h` has an entry. -/
theorem Sys.noneDead_iff (hin : s.InTable) : s.NoneDead ↔ s.InLive := by
  constructor
  · exact fun h => h.entries
  · intro h
    refine ⟨h, ?_⟩
    intro hclosing e es hes
    rcases hin.allocated e es hes with ⟨p, hp⟩ | ⟨p, hp⟩
    · obtain ⟨es', hes', hconn, hpcb, _⟩ := hin.entry e p hp
      rw [hes] at hes'
      cases hes'
      rw [hpcb, hconn]
      exact h e p hp
    · rw [hclosing] at hp
      cases hp

theorem LoopKept.live {kind : Event → Bool} (h : LoopKept kind s t) (hs : s.InLive) :
    t.InLive := by
  rw [Sys.InLive, h.tcpPcbs, h.tpcbs]
  exact hs.setPcbs h.pcbs

theorem LoopStep.live {pc : LoopPc} (hpc : s.loop = pc) (h : LoopStep cfg s o pc t)
    (hs : s.InLive) (harmed : s.InArmed) (hin : s.InTable) : t.InLive := by
  cases h with
  | sendFailed _ _ _ _ _ => exact hs.setPcbs .set
  | @sendTcp p w es run _ _ _ _ _ _ _ =>
      have hsent : LiveEntries s.pcbs s.tcpPcbs (Function.update s.tpcbs (s.pcbs p).pcb _) :=
        hs.setTpcb (y := (s.tpcbs (s.pcbs p).pcb).map fun x =>
            { x with unacked := x.unacked + run.wrote.flatten.length }) (by
          intro x hx
          rw [hx]
          exact ⟨_, rfl, rfl⟩)
      exact hsent.setPcbs .set
  | done _ => exact hs.setPcbs .set
  | close hclose => exact hclose.loopKept.live hs
  | @closed p a e k =>
      have hreleased := (hs.close_iff harmed hin (a := a)).mpr fun (_ : o.frees = true) x hx =>
        harmed.closing p .unlock a e k x hpc hx
      exact hreleased.setPcbs .set
  | _ => exact hs

theorem CallbackStep.live {cb : Callback} (h : CallbackStep cfg s o cb t) (hs : s.InLive)
    (hin : s.InTable) : t.InLive := by
  have acked : ∀ {a x n}, s.tpcbs a = some x →
      LiveEntries s.pcbs s.tcpPcbs (Function.update s.tpcbs a (some { x with unacked := n })) := by
    intro a x n ha
    refine hs.setTpcb ?_
    intro x' hx
    rw [ha] at hx
    cases hx
    exact ⟨_, rfl, rfl⟩
  have known : ∀ e p, s.tcpPcbs e = some p → p < s.nextPcb := fun e p hp => (hin.known e p hp).1
  cases h with
  | accept ha _ => exact hs.enter known ha rfl rfl
  | fin ha harg hp _ _ => exact hs.leave hin hp ha (hin.callback_conn ha harg hp)
  | err ha harg hp _ _ => exact hs.leave hin hp ha (hin.callback_conn ha harg hp)
  | sentMore ha _ _ _ _ _ _ => exact acked ha
  | sentIdle ha _ _ _ _ _ _ => exact acked ha
  | sent ha _ _ _ _ _ _ _ => exact (acked ha).setPcbs .set
  | pollMore ha _ _ _ _ _ _ => exact acked ha
  | udpNew _ _ => exact hs.newPcb known
  | _ => exact hs

theorem Step.live {a : Act} (h : Step cfg s a t) (hs : s.InLive) (harmed : s.InArmed)
    (hin : s.InOrder) : t.InLive ↔ ReleasesCleared s a := by
  by_cases ha : a.ofGoroutine = true
  · refine iff_of_true ((h.loopKept ha).live hs) ?_
    cases a <;> trivial
  cases h with
  | frame _ => exact iff_of_true hs trivial
  | takeRecved _ _ => exact iff_of_true hs trivial
  | @takeClose o p q _ hrecv htype =>
      refine Iff.trans (hs.close_iff harmed hin.table) ?_
      have hbuf := (Chan.recv_some hrecv).1
      constructor
      · intro h hfrees c rest x hqueue _ hx
        rw [hbuf] at hqueue
        obtain ⟨rfl, _⟩ := List.cons.inj hqueue
        exact h hfrees x hx
      · intro h hfrees x hx
        exact h hfrees p _ x hbuf htype hx
  | @takeCloseUdp o p q _ hrecv htype =>
      refine iff_of_true hs ?_
      intro _ c rest x hqueue htcp
      rw [(Chan.recv_some hrecv).1] at hqueue
      obtain ⟨rfl, _⟩ := List.cons.inj hqueue
      rw [htype] at htcp
      cases htcp
  | takeSend _ _ => exact iff_of_true hs trivial
  | takeInput _ _ => exact iff_of_true hs trivial
  | loop hpc h => exact iff_of_true (h.live hpc hs harmed hin.table) trivial
  | callback _ h => exact iff_of_true (h.live hs hin.table) trivial
  | release _ _ _ => exact hs.release_iff harmed hin.table
  | _ => exact absurd rfl ha

/-- The registered connections are live all along a run, exactly if lwIP releases only
pcbs whose callbacks were cleared. -/
theorem run_noneDead_iff {tr : List (Sys × Act)} (hrun : (bridge cfg).Run tr s) :
    Machine.Always Sys.NoneDead tr s ↔ Machine.Meets ReleasesCleared tr := by
  refine hrun.always_iff (J := fun s => s.InOrder ∧ s.InArmed)
    (fun h => ⟨reachable_inOrder h, reachable_armed h⟩) ⟨nofun, nofun⟩ ?_
  intro s a t hs hlive hstep
  have hin := hs.1
  have hstep' := step_cases hin hstep
  rw [Sys.noneDead_iff hin.table] at hlive
  rw [Sys.noneDead_iff (hstep'.inOrder hin).table]
  exact hstep'.live hlive hs.2 hin

/-- A connection that its peer closes, and whose pcb is released. -/
theorem run_noneDead_fin : ∃ tr s, (bridge Schedule.config).Run tr s ∧
    s.tpcbs 1 = none ∧ .rawClosed 0 ∈ s.trace ∧ Machine.Always Sys.NoneDead tr s := by
  obtain ⟨tr, s, hrun, hmeets, htest⟩ := Machine.exists_run_of_exec (bridge Schedule.config)
    (fun s a => match a with
      | .take .close _ => false
      | .release a => ((s.tpcbs a).bind TcpPcb.arg).isNone
      | _ => true)
    (Schedule.accept ++ [.callback (.recv 1 none .ok) Schedule.fine] ++
      List.replicate 6 (.loop Schedule.fine) ++ [.release 1])
    (fun s => s.tpcbs 1 = none ∧ .rawClosed 0 ∈ s.trace) (by decide)
  obtain ⟨hnone, hclosed⟩ := of_decide_eq_true htest
  refine ⟨tr, s, hrun, hnone, hclosed, (run_noneDead_iff hrun).mpr (hmeets.mono ?_)⟩
  intro s a hok
  cases a with
  | take source o =>
      cases source with
      | close => cases hok
      | _ => trivial
  | release a =>
      intro x hx
      simpa [hx] using hok
  | _ => trivial

/-- `tcp_close` releases the pcb of a connection that the application closed with a chunk of it
unread. -/
theorem not_noneDead_close : ∃ s, (bridge Schedule.config).Reachable s ∧ s.loop = .select ∧
    .delivered 0 [9] ∈ s.trace ∧ (s.chans (.own 0)).buf = [[9]] ∧ s.recvedQueue.buf = [] ∧
      s.tpcbs 1 = none ∧ s.tcpPcbs 2 = some 0 ∧ ¬s.NoneDead := by
  obtain ⟨tr, s, hrun, _, htest⟩ := Machine.exists_run_of_exec (bridge Schedule.config)
    (fun _ _ => true)
    (Schedule.accept ++ [.callback (.recv 1 (some [9]) .ok) Schedule.fine] ++
      List.replicate 3 (.loop Schedule.fine) ++ [.call 0 (.close 0)] ++ List.replicate 7 (.go 0) ++
        [.take .close { Schedule.fine with frees := true }])
    (fun s => s.loop = .select ∧ .delivered 0 [9] ∈ s.trace ∧ (s.chans (.own 0)).buf = [[9]] ∧
      s.recvedQueue.buf = [] ∧ s.tpcbs 1 = none ∧ s.tcpPcbs 2 = some 0 ∧ (s.pcbs 0).pcb = 1)
    (by decide)
  obtain ⟨hloop, hdelivered, hqueued, hcredit, hnone, hentry, hpcb⟩ := of_decide_eq_true htest
  refine ⟨s, hrun.reachable, hloop, hdelivered, hqueued, hcredit, hnone, hentry, ?_⟩
  intro hlive
  obtain ⟨x, hx, _⟩ := hlive.entries 2 0 hentry
  rw [hpcb, hnone] at hx
  cases hx

end LwipCs
