import LwipCs.Bridge.Deadlock
import LwipCs.Bridge.Released
import LwipCs.Bridge.Shut
import LwipCs.Bridge.TcpWrite

/-!
# Who wakes a waiting `Write`

`Send` counts a Write before it knows whether anything was queued, and only an
acknowledgement releases the Write. A counted Write has a waker as long as its bytes
are in `es->p` or unacknowledged at a pcb that still calls back.
-/

namespace LwipCs

open Interleave

/-- Bytes of the connection are left in `es->p`. -/
def Left (heap : Ptr → Option RawState) (f : Flow) : Prop :=
  ∃ es, heap f.state = some es ∧ es.conn = f.conn ∧ es.p ≠ []

/-- lwIP holds unacknowledged bytes of the connection and calls back: a sent callback
is due. -/
def Due (tpcbs : Ptr → Option TcpPcb) (f : Flow) : Prop :=
  ∃ x, tpcbs f.pcb = some x ∧ x.conn = f.conn ∧ x.arg = some f.state ∧ 0 < x.unacked

/-- A `Write` that is blocked on `sendWait` has its entry in `sendQueue` or in the hands
of the loop, bytes in `es->p`, a sent callback due, or one about to send its token. -/
def Sys.Wakeable (s : Sys) : Prop :=
  ∀ t p w, s.threads t = .write p w .wait → (s.pcbs p).sendWait.recv = .blocked →
    ⟨p, w⟩ ∈ s.loop.inHand ++ s.sendQueue.buf ∨ Left s.heap (s.pcbs p).toFlow ∨
      Due s.tpcbs (s.pcbs p).toFlow ∨ ∃ a e k, s.loop = .done p a e k

/-- A Write on the PCB is counted, and `tcp_write` took all its bytes. -/
def Sys.Awaits (s : Sys) (p : PcbId) : Prop :=
  (s.pcbs p).sendCount = 1 ∧ ¬Left s.heap (s.pcbs p).toFlow

/-- Releasing the pcb takes it from no open PCB. -/
def Sys.Spare (s : Sys) (a : Ptr) : Prop :=
  ∀ x e p, s.tpcbs a = some x → x.arg = some e → s.tcpPcbs e = some p → (s.pcbs p).err = true

/-- `Send` queues at least a byte, or finds bytes unacknowledged where `pbuf_alloc`
fails; no FIN or error of a connection arrives while a Write awaits its acknowledgement;
lwIP releases no pcb of an open PCB. -/
def WakerOk (s : Sys) : Act → Prop
  | .loop o => ∀ p w, s.loop = .send ⟨p, w⟩ → (s.pcbs p).type = .tcp → (s.pcbs p).err = false →
      u16 (s.bufs w).data.length ≠ 0 ∧ (o.alloc = true ∨ Due s.tpcbs (s.pcbs p).toFlow)
  | .callback cb _ => ∀ p, s.closes cb = some p → ¬s.Awaits p
  | .take .close o => o.frees = true → ∀ c rest, s.closeQueue.buf = c :: rest →
      (s.pcbs c).type = .tcp → s.Spare (s.pcbs c).pcb
  | .release a => s.Spare a
  | _ => True

/-- lwIP has a pcb of the connection. -/
def Alive (tpcbs : Ptr → Option TcpPcb) (f : Flow) : Prop :=
  ∃ x, tpcbs f.pcb = some x ∧ x.conn = f.conn

/-- An open PCB in the table has its pcb, and a counted Write of one has a waker. -/
structure Awaited (nextPcb : PcbId) (pcbs : PcbId → PCB) (tcpPcbs : Ptr → Option PcbId)
    (heap : Ptr → Option RawState) (tpcbs : Ptr → Option TcpPcb) : Prop where
  alive : ∀ p, OpenTcp nextPcb pcbs p → tcpPcbs (pcbs p).state = some p →
    Alive tpcbs (pcbs p).toFlow
  counted : ∀ p, OpenTcp nextPcb pcbs p → (pcbs p).sendCount = 1 →
    Left heap (pcbs p).toFlow ∨ Due tpcbs (pcbs p).toFlow

/-- The chains in `es->p` have single references and no empty pbuf. -/
def Chains (heap : Ptr → Option RawState) : Prop :=
  ∀ e es, heap e = some es → Single es.p ∧ Filled es.p

section

variable {nextPcb : PcbId} {pcbs : PcbId → PCB} {tcpPcbs : Ptr → Option PcbId}
variable {heap : Ptr → Option RawState} {tpcbs : Ptr → Option TcpPcb} {p : PcbId} {x : PCB}

theorem Chains.setHeap (h : Chains heap) {e : Ptr} {state : Option RawState}
    (hstate : ∀ es ∈ state, Single es.p ∧ Filled es.p) : Chains (Function.update heap e state) := by
  intro f es hf
  by_cases hfe : f = e
  · subst hfe
    rw [Function.update_self] at hf
    exact hstate es hf
  · rw [Function.update_of_ne hfe] at hf
    exact h f es hf

/-- A step keeps what serves the connection. -/
structure KeepsWaker (heap heap' : Ptr → Option RawState) (tpcbs tpcbs' : Ptr → Option TcpPcb)
    (f : Flow) : Prop where
  alive : Alive tpcbs f → Alive tpcbs' f
  left : Left heap f → Left heap' f
  due : Due tpcbs f → Due tpcbs' f

namespace Awaited

/-- A step about the connection of one PCB. -/
theorem change (h : Awaited nextPcb pcbs tcpPcbs heap tpcbs) {tcpPcbs' : Ptr → Option PcbId}
    {heap' : Ptr → Option RawState} {tpcbs' : Ptr → Option TcpPcb}
    (hflow : x.toFlow = (pcbs p).toFlow)
    (hentries : ∀ e q, tcpPcbs' e = some q → tcpPcbs e = some q)
    (hother : ∀ q, q ≠ p → OpenTcp nextPcb pcbs q →
      KeepsWaker heap heap' tpcbs tpcbs' (pcbs q).toFlow)
    (halive : OpenTcp nextPcb pcbs p → tcpPcbs' (pcbs p).state = some p →
      Alive tpcbs' (pcbs p).toFlow)
    (hcounted : OpenTcp nextPcb pcbs p → x.sendCount = 1 →
      Left heap' (pcbs p).toFlow ∨ Due tpcbs' (pcbs p).toFlow)
    (herr : x.err = false → (pcbs p).err = false) :
    Awaited nextPcb (Function.update pcbs p x) tcpPcbs' heap' tpcbs' := by
  constructor
  · rintro q ⟨⟨hlt, htype⟩, hopen⟩ hentry
    by_cases hq : q = p
    · subst hq
      rw [Function.update_self] at htype hopen hentry ⊢
      rw [hflow] at hentry ⊢
      exact halive ⟨⟨hlt, hflow ▸ htype⟩, herr hopen⟩ hentry
    · rw [Function.update_of_ne hq] at htype hopen hentry ⊢
      have hopen' : OpenTcp nextPcb pcbs q := ⟨⟨hlt, htype⟩, hopen⟩
      exact (hother q hq hopen').alive (h.alive q hopen' (hentries _ q hentry))
  · rintro q ⟨⟨hlt, htype⟩, hopen⟩ hcount
    by_cases hq : q = p
    · subst hq
      rw [Function.update_self] at htype hopen hcount ⊢
      rw [hflow]
      exact hcounted ⟨⟨hlt, hflow ▸ htype⟩, herr hopen⟩ hcount
    · rw [Function.update_of_ne hq] at htype hopen hcount ⊢
      have hopen' : OpenTcp nextPcb pcbs q := ⟨⟨hlt, htype⟩, hopen⟩
      obtain ⟨_, hleft, hdue⟩ := hother q hq hopen'
      exact (h.counted q hopen' hcount).imp hleft hdue

/-- The fields of a PCB that no waker depends on. -/
theorem setPcbs (h : Awaited nextPcb pcbs tcpPcbs heap tpcbs) {pcbs' : PcbId → PCB}
    (hkept : PcbsKept pcbs pcbs')
    (hcount : ∀ q, (pcbs' q).sendCount = (pcbs q).sendCount) :
    Awaited nextPcb pcbs' tcpPcbs heap tpcbs := by
  constructor
  · intro q hq hentry
    rw [hkept.flow] at hentry ⊢
    exact h.alive q (hq.of_kept hkept) hentry
  · intro q hq hone
    rw [hkept.flow]
    exact h.counted q (hq.of_kept hkept) ((hcount q).symm.trans hone)

/-- A step that touches no PCB. -/
theorem keep (h : Awaited nextPcb pcbs tcpPcbs heap tpcbs) {heap' : Ptr → Option RawState}
    {tpcbs' : Ptr → Option TcpPcb}
    (hkept : ∀ q, OpenTcp nextPcb pcbs q → KeepsWaker heap heap' tpcbs tpcbs' (pcbs q).toFlow) :
    Awaited nextPcb pcbs tcpPcbs heap' tpcbs' := by
  constructor
  · intro q hq hentry
    exact (hkept q hq).alive (h.alive q hq hentry)
  · intro q hq hone
    obtain ⟨_, hleft, hdue⟩ := hkept q hq
    exact (h.counted q hq hone).imp hleft hdue

theorem newPcb (h : Awaited nextPcb pcbs tcpPcbs heap tpcbs) (htype : x.type = .udp) :
    Awaited (nextPcb + 1) (Function.update pcbs nextPcb x) tcpPcbs heap tpcbs := by
  have old : ∀ q, OpenTcp (nextPcb + 1) (Function.update pcbs nextPcb x) q → q ≠ nextPcb := by
    rintro q ⟨⟨_, hq⟩, _⟩ rfl
    rw [Function.update_self, htype] at hq
    cases hq
  have open_of : ∀ q, OpenTcp (nextPcb + 1) (Function.update pcbs nextPcb x) q →
      OpenTcp nextPcb pcbs q := by
    intro q hq
    have hne := old q hq
    obtain ⟨⟨hlt, htype'⟩, hopen⟩ := hq
    rw [Function.update_of_ne hne] at htype' hopen
    exact ⟨⟨Nat.lt_of_le_of_ne (Nat.le_of_lt_succ hlt) hne, htype'⟩, hopen⟩
  constructor
  · intro q hq hentry
    rw [Function.update_of_ne (old q hq)] at hentry ⊢
    exact h.alive q (open_of q hq) hentry
  · intro q hq hone
    rw [Function.update_of_ne (old q hq)] at hone ⊢
    exact h.counted q (open_of q hq) hone

/-- lwIP accepts a connection with a new pcb and a new object. -/
theorem enter (h : Awaited nextPcb pcbs tcpPcbs heap tpcbs) {a e : Ptr} {es : RawState}
    {y : TcpPcb} (ha : tpcbs a = none) (he : heap e = none)
    (hpcb : x.pcb = a) (hconn : y.conn = x.conn) (hcount : x.sendCount = 0) :
    Awaited (nextPcb + 1) (Function.update pcbs nextPcb x)
      (Function.update tcpPcbs e (some nextPcb)) (Function.update heap e (some es))
      (Function.update tpcbs a (some y)) := by
  have kept : ∀ f, KeepsWaker heap (Function.update heap e (some es)) tpcbs
      (Function.update tpcbs a (some y)) f := by
    intro f
    have hne : ∀ {z}, tpcbs f.pcb = some z → f.pcb ≠ a := by
      intro z hz hfa
      rw [hfa, ha] at hz
      cases hz
    constructor
    · rintro ⟨z, hz, hrest⟩
      exact ⟨z, by rw [Function.update_of_ne (hne hz), hz], hrest⟩
    · rintro ⟨fs, hfs, hrest⟩
      have hfe : f.state ≠ e := by
        intro hfe
        rw [hfe, he] at hfs
        cases hfs
      exact ⟨fs, by rw [Function.update_of_ne hfe, hfs], hrest⟩
    · rintro ⟨z, hz, hrest⟩
      exact ⟨z, by rw [Function.update_of_ne (hne hz), hz], hrest⟩
  constructor
  · rintro q ⟨⟨hlt, htype⟩, hopen⟩ hentry
    by_cases hq : q = nextPcb
    · subst hq
      rw [Function.update_self]
      exact ⟨y, by rw [hpcb, Function.update_self], hconn⟩
    · rw [Function.update_of_ne hq] at htype hopen hentry ⊢
      have hopen' : OpenTcp nextPcb pcbs q :=
        ⟨⟨Nat.lt_of_le_of_ne (Nat.le_of_lt_succ hlt) hq, htype⟩, hopen⟩
      have hqe : (pcbs q).state ≠ e := by
        intro hqe
        rw [hqe, Function.update_self] at hentry
        cases hentry
        exact hq rfl
      rw [Function.update_of_ne hqe] at hentry
      exact (kept _).alive (h.alive q hopen' hentry)
  · rintro q ⟨⟨hlt, htype⟩, hopen⟩ hone
    by_cases hq : q = nextPcb
    · subst hq
      rw [Function.update_self, hcount] at hone
      cases hone
    · rw [Function.update_of_ne hq] at htype hopen hone ⊢
      have hopen' : OpenTcp nextPcb pcbs q :=
        ⟨⟨Nat.lt_of_le_of_ne (Nat.le_of_lt_succ hlt) hq, htype⟩, hopen⟩
      exact (h.counted q hopen' hone).imp (kept _).left (kept _).due

/-- `cs_tcp_raw_close` forgets the entry of a PCB that no Write waits on. -/
theorem leave (h : Awaited nextPcb pcbs tcpPcbs heap tpcbs) {e : Ptr}
    {heap' : Ptr → Option RawState} {tpcbs' : Ptr → Option TcpPcb} (hstate : (pcbs p).state = e)
    (hother : ∀ q, q ≠ p → OpenTcp nextPcb pcbs q →
      KeepsWaker heap heap' tpcbs tpcbs' (pcbs q).toFlow)
    (hcounted : (pcbs p).sendCount = 1 → Left heap' (pcbs p).toFlow) :
    Awaited nextPcb pcbs (Function.update tcpPcbs e none) heap' tpcbs' := by
  have hentries : ∀ f q, Function.update tcpPcbs e none f = some q → tcpPcbs f = some q := by
    intro f q hq
    by_cases hfe : f = e
    · rw [hfe, Function.update_self] at hq
      cases hq
    · rwa [Function.update_of_ne hfe] at hq
  have hgone : Function.update tcpPcbs e none (pcbs p).state ≠ some p := by
    rw [hstate, Function.update_self]
    exact nofun
  have hafter := h.change (p := p) (x := pcbs p) rfl hentries hother
    (fun _ hentry => absurd hentry hgone) (fun _ hone => Or.inl (hcounted hone)) id
  rwa [Function.update_eq_self] at hafter

/-- A state object changes without losing its bytes. -/
theorem setHeap (h : Awaited nextPcb pcbs tcpPcbs heap tpcbs) {e : Ptr} {es es' : RawState}
    (hes : heap e = some es) (hconn : es'.conn = es.conn)
    (hp : es.p ≠ [] → es'.p ≠ []) :
    Awaited nextPcb pcbs tcpPcbs (Function.update heap e (some es')) tpcbs := by
  refine h.keep fun q _ => ⟨id, ?_, id⟩
  rintro ⟨fs, hfs, hsame, hne⟩
  by_cases hqe : (pcbs q).state = e
  · rw [hqe, hes] at hfs
    cases hfs
    exact ⟨es', by rw [hqe, Function.update_self], hconn.trans hsame, hp hne⟩
  · exact ⟨fs, by rw [Function.update_of_ne hqe, hfs], hsame, hne⟩

/-- The address of an object is no open PCB's. -/
theorem setFree (h : Awaited nextPcb pcbs tcpPcbs heap tpcbs) {e : Ptr} {state : Option RawState}
    (hfree : ∀ q, OpenTcp nextPcb pcbs q → (pcbs q).state ≠ e) :
    Awaited nextPcb pcbs tcpPcbs (Function.update heap e state) tpcbs := by
  refine h.keep fun q hq => ⟨id, ?_, id⟩
  rintro ⟨fs, hfs, hrest⟩
  exact ⟨fs, by rw [Function.update_of_ne (hfree q hq), hfs], hrest⟩

end Awaited

end

variable {cfg : Config} {s t : Sys} {o : Outcomes} {p q : PcbId}

/-! ### Chains -/

theorem LoopStep.chains {pc : LoopPc} (hpc : s.loop = pc) (h : LoopStep cfg s o pc t)
    (hok : WakerOk s (.loop o)) (hs : Chains s.heap) : Chains t.heap := by
  cases h with
  | @sendTcp p w es run herr htype _ _ _ _ hrun =>
      have hlen := (hok p w hpc htype herr).1
      have hsingle := charChain_single cfg.lwip (s.bufs w).data
      subst hrun
      refine hs.setHeap ?_
      rintro _ ⟨⟩
      exact ⟨csTcpRawSend_single hsingle _ _,
        csTcpRawSend_filled hsingle (charChain_filled hlen) _ _⟩
  | close hclose =>
      rw [hclose.loopKept.heap]
      exact hs
  | closed => exact hs.setHeap nofun
  | _ => exact hs

theorem CallbackStep.chains {cb : Callback} (h : CallbackStep cfg s o cb t)
    (hs : Chains s.heap) : Chains t.heap := by
  have kept : ∀ {e es state}, s.heap e = some es →
      Chains (Function.update s.heap e (some { es with state := state })) := by
    intro e es state hes
    refine hs.setHeap ?_
    rintro _ ⟨⟩
    exact hs e es hes
  have resumed : ∀ {e es} {run : SendRun}, s.heap e = some es →
      csTcpRawSend cfg.lwip es.p o.sndbuf o.writes = run →
      Chains (Function.update s.heap e (some { es with p := run.p })) := by
    intro e es run hes hrun
    obtain ⟨hsingle, hfilled⟩ := hs e es hes
    subst hrun
    refine hs.setHeap ?_
    rintro _ ⟨⟩
    exact ⟨csTcpRawSend_single hsingle _ _, csTcpRawSend_filled hsingle hfilled _ _⟩
  cases h with
  | accept _ _ =>
      refine hs.setHeap ?_
      rintro _ ⟨⟩
      exact ⟨single_nil, filled_nil⟩
  | recvClosed _ _ _ hes _ _ => exact kept hes
  | recvEmpty _ _ _ hes _ _ => exact kept hes
  | recv _ _ _ hes _ _ _ => exact kept hes
  | fin _ _ _ hes _ => exact kept hes
  | sentMore _ _ _ hes _ _ hrun => exact resumed hes hrun
  | pollMore _ _ _ hes _ _ hrun => exact resumed hes hrun
  | _ => exact hs

theorem Step.chains {a : Act} (h : Step cfg s a t) (hok : WakerOk s a) (hs : Chains s.heap) :
    Chains t.heap := by
  by_cases ha : a.ofGoroutine = true
  · rw [(h.loopKept ha).heap]
    exact hs
  cases h with
  | loop hpc h => exact h.chains hpc hok hs
  | callback _ h => exact h.chains hs
  | _ => first | exact absurd rfl ha | exact hs

/-! ### Counted Writes -/

/-- The state in which a step keeps the wakers. -/
structure Sys.WakerReady (s : Sys) : Prop extends s.OutputReady where
  armed : s.InArmed
  shut : s.InShut

theorem reachable_wakerReady (h : (bridge cfg).Reachable s) : s.WakerReady :=
  { reachable_outputReady h with
    armed := reachable_armed h
    shut := reachable_shut h }

/-- A callback on one connection leaves the others alone. -/
theorem Sys.InTable.other_conn (h : s.InTable) {a e : Ptr} {x : TcpPcb} (ha : s.tpcbs a = some x)
    (harg : x.arg = some e) (hp : s.tcpPcbs e = some p) (hq : q ≠ p)
    (hopen : OpenTcp s.nextPcb s.pcbs q) (state : Option RawState) (y : Option TcpPcb) :
    KeepsWaker s.heap (Function.update s.heap e state) s.tpcbs (Function.update s.tpcbs a y)
      (s.pcbs q).toFlow := by
  obtain ⟨hplt, hptype, _⟩ := h.known e p hp
  have hne : (s.pcbs q).conn ≠ (s.pcbs p).conn :=
    fun hsame => hq (h.conn_inj q p hopen.1.1 hplt hopen.1.2 hptype hsame)
  have hqa : ∀ {z}, s.tpcbs (s.pcbs q).pcb = some z → z.conn = (s.pcbs q).conn →
      (s.pcbs q).pcb ≠ a := by
    intro z hz hconn hqa
    rw [hqa, ha] at hz
    cases hz
    exact hne (hconn.symm.trans (h.callback_conn ha harg hp))
  constructor
  · rintro ⟨z, hz, hconn⟩
    exact ⟨z, by rw [Function.update_of_ne (hqa hz hconn), hz], hconn⟩
  · rintro ⟨fs, hfs, hconn, hpending⟩
    have hqe : (s.pcbs q).state ≠ e := by
      intro hqe
      obtain ⟨es, hes, hesconn, _⟩ := h.entry e p hp
      rw [hqe, hes] at hfs
      cases hfs
      exact hne (hconn.symm.trans hesconn)
    exact ⟨fs, by rw [Function.update_of_ne hqe, hfs], hconn, hpending⟩
  · rintro ⟨z, hz, hconn, hrest⟩
    exact ⟨z, by rw [Function.update_of_ne (hqa hz hconn), hz], hconn, hrest⟩

/-- `Awaited` of a state of the system. -/
abbrev Sys.InAwaited (s : Sys) : Prop := Awaited s.nextPcb s.pcbs s.tcpPcbs s.heap s.tpcbs

/-- `cs_tcp_raw_send` in a callback queues what it takes from `es->p`. -/
theorem resumed_awaited {a e : Ptr} {x : TcpPcb} {es : RawState} {run : SendRun} {n : Nat}
    (hin : s.InTable) (hchains : Chains s.heap) (ha : s.tpcbs a = some x) (harg : x.arg = some e)
    (hp : s.tcpPcbs e = some p) (hes : s.heap e = some es) (hpending : es.p ≠ [])
    (hrun : csTcpRawSend cfg.lwip es.p o.sndbuf o.writes = run) (hs : s.InAwaited) :
    Awaited s.nextPcb s.pcbs s.tcpPcbs (Function.update s.heap e (some { es with p := run.p }))
      (Function.update s.tpcbs a
        (some { x with unacked := n + run.wrote.flatten.length })) := by
  obtain ⟨q, es', hq, hes', hesconn, _, _, hconn, hpcb⟩ := hin.callback ha harg
  rw [hp] at hq
  cases hq
  rw [hes] at hes'
  cases hes'
  have hstate := (hin.known e p hp).2.2
  have hafter := hs.change (p := p) (x := s.pcbs p) rfl (fun _ _ hentry => hentry)
    (fun q hq hopen => hin.other_conn ha harg hp hq hopen (some { es with p := run.p })
      (some { x with unacked := n + run.wrote.flatten.length })) (by
    intro _ _
    exact ⟨{ x with unacked := n + run.wrote.flatten.length },
      by rw [hpcb, Function.update_self], hconn.symm⟩) (by
    intro _ _
    by_cases hempty : run.p = []
    · obtain ⟨hsingle, hfilled⟩ := hchains e es hes
      subst hrun
      have hwrote := csTcpRawSend_wrote hsingle hfilled hpending hempty
      refine Or.inr ⟨{ x with
        unacked := n + (csTcpRawSend cfg.lwip es.p o.sndbuf o.writes).wrote.flatten.length },
        by rw [hpcb, Function.update_self], hconn.symm, ?_, ?_⟩
      · rw [hstate]
        exact harg
      · exact Nat.lt_of_lt_of_le hwrote (Nat.le_add_left _ _)
    · refine Or.inl ⟨_, by rw [hstate, Function.update_self], ?_, hempty⟩
      exact hesconn.trans hconn.symm) id
  rwa [Function.update_eq_self] at hafter

/-- `Send` of an open PCB. -/
theorem sent_awaited {w : WriteId} {es : RawState} {run : SendRun}
    (hloop : s.loop = .send ⟨p, w⟩) (hopen : OpenTcp s.nextPcb s.pcbs p)
    (hes : s.heap (s.pcbs p).state = some es) (hlen : u16 (s.bufs w).data.length ≠ 0)
    (hrun : csTcpRawSend cfg.lwip (charChain cfg.lwip (s.bufs w).data) o.sndbuf o.writes = run)
    (hready : s.WakerReady) (hs : s.InAwaited) :
    Awaited s.nextPcb
      (Function.update s.pcbs p { s.pcbs p with sendCount := (s.pcbs p).sendCount + 1 })
      s.tcpPcbs (Function.update s.heap (s.pcbs p).state (some { es with p := run.p }))
      (Function.update s.tpcbs (s.pcbs p).pcb ((s.tpcbs (s.pcbs p).pcb).map fun x =>
        { x with unacked := x.unacked + run.wrote.flatten.length })) := by
  have hin := hready.order.table
  have hentry := hin.entered hopen.1 hopen.2 (by rw [hloop]; rfl)
  have hconn := hin.owns hopen.1 hopen.2 (by rw [hloop]; rfl) hes
  obtain ⟨x, hx, hxconn⟩ := hs.alive p hopen hentry
  have harg := hready.armed.entry _ p x hentry hx hxconn
  rw [hx]
  refine hs.change rfl (fun _ _ hentry => hentry)
    (fun q hq hqopen => hin.other_conn hx harg hentry hq hqopen _ _) ?_ ?_ (by exact id)
  · intro _ _
    exact ⟨_, Function.update_self .., hxconn⟩
  · intro _ _
    by_cases hempty : run.p = []
    · subst hrun
      have hwrote := csTcpRawSend_wrote (charChain_single _ _) (charChain_filled hlen)
        (charChain_ne_nil _) hempty
      refine Or.inr ⟨_, Function.update_self .., hxconn, harg, ?_⟩
      exact Nat.lt_of_lt_of_le hwrote (Nat.le_add_left _ _)
    · exact Or.inl ⟨_, Function.update_self .., hconn, hempty⟩

/-- A pcb that is no open PCB's may be released. -/
theorem spare_awaited {a : Ptr} (hspare : s.Spare a) (hready : s.WakerReady) (hs : s.InAwaited)
    (y : Option TcpPcb) :
    Awaited s.nextPcb s.pcbs s.tcpPcbs s.heap (Function.update s.tpcbs a y) := by
  have hin := hready.order.table
  have hne : ∀ q x, OpenTcp s.nextPcb s.pcbs q → s.tpcbs (s.pcbs q).pcb = some x →
      x.arg = some (s.pcbs q).state → x.conn = (s.pcbs q).conn → (s.pcbs q).pcb ≠ a := by
    rintro q x hq hx harg hconn rfl
    obtain ⟨p, hp, hpconn, _⟩ := hin.registered _ x _ hx harg
    obtain ⟨hplt, hptype, _⟩ := hin.known _ p hp
    have hpq := hin.conn_inj p q hplt hq.1.1 hptype hq.1.2 (hpconn.trans hconn)
    subst hpq
    have herr := hspare x _ p hx harg hp
    rw [hq.2] at herr
    cases herr
  constructor
  · intro q hq hentry
    obtain ⟨x, hx, hconn⟩ := hs.alive q hq hentry
    have harg := hready.armed.entry _ q x hentry hx hconn
    exact ⟨x, by rw [Function.update_of_ne (hne q x hq hx harg hconn), hx], hconn⟩
  · intro q hq hone
    refine (hs.counted q hq hone).imp_right ?_
    rintro ⟨x, hx, hconn, harg, hpos⟩
    exact ⟨x, by rw [Function.update_of_ne (hne q x hq hx harg hconn), hx], hconn, harg, hpos⟩

/-- `tcp_close`. -/
theorem close_awaited {a : Ptr} {frees : Bool} (hspare : frees = true → s.Spare a)
    (hready : s.WakerReady) (hs : s.InAwaited) :
    Awaited s.nextPcb s.pcbs s.tcpPcbs s.heap (Function.update s.tpcbs a
      ((s.tpcbs a).bind fun x => if frees then none else some { x with closing := true })) := by
  cases frees with
  | true => exact spare_awaited (hspare rfl) hready hs _
  | false =>
      refine hs.keep fun q _ => ?_
      by_cases hqa : (s.pcbs q).pcb = a
      · subst hqa
        refine ⟨?_, id, ?_⟩
        · rintro ⟨x, hx, hconn⟩
          exact ⟨{ x with closing := true }, by rw [Function.update_self, hx]; rfl, hconn⟩
        · rintro ⟨x, hx, hrest⟩
          exact ⟨{ x with closing := true }, by rw [Function.update_self, hx]; rfl, hrest⟩
      · refine ⟨?_, id, ?_⟩
        · rintro ⟨x, hx, hrest⟩
          exact ⟨x, by rw [Function.update_of_ne hqa, hx], hrest⟩
        · rintro ⟨x, hx, hrest⟩
          exact ⟨x, by rw [Function.update_of_ne hqa, hx], hrest⟩

theorem LoopKept.awaited {kind : Event → Bool} (h : LoopKept kind s t) (hs : s.InAwaited) :
    t.InAwaited := by
  rw [Sys.InAwaited, h.nextPcb, h.tcpPcbs, h.heap, h.tpcbs]
  exact hs.setPcbs h.pcbs h.sendCount

theorem LoopStep.awaited {pc : LoopPc} (hpc : s.loop = pc) (h : LoopStep cfg s o pc t)
    (hok : WakerOk s (.loop o)) (hready : s.WakerReady) (hs : s.InAwaited) : t.InAwaited := by
  have hin := hready.order.table
  cases h with
  | @sendFailed p w es ret herr htype _ hes hret =>
      have hp := hready.order.known.loop
      rw [hpc] at hp
      have hopen : OpenTcp s.nextPcb s.pcbs p := ⟨⟨hp, htype⟩, herr⟩
      have hnil := (hready.shaken.send hready.counts hin hpc hopen.1 herr).2 es hes
      refine hs.change rfl (fun _ _ hentry => hentry) (fun _ _ _ => ⟨id, id, id⟩) (hs.alive p) ?_
        (by exact id)
      intro _ _
      rcases hret with ⟨hpending, _⟩ | ⟨_, halloc, _⟩
      · exact absurd hnil hpending
      · rcases (hok p w hpc htype herr).2 with halloc' | hdue
        · rw [halloc] at halloc'
          cases halloc'
        · exact Or.inr hdue
  | @sendTcp p w es run herr htype _ hes _ _ hrun =>
      have hp := hready.order.known.loop
      rw [hpc] at hp
      exact sent_awaited hpc ⟨⟨hp, htype⟩, herr⟩ hes (hok p w hpc htype herr).1 hrun hready hs
  | done _ => exact hs.setPcbs .set sendCount_set
  | close hclose => exact hclose.loopKept.awaited hs
  | @closed p a e k =>
      have hloopOk := hin.loopOk
      rw [hpc] at hloopOk
      have hcleared : s.Spare a := by
        intro x e p hx harg _
        have hnone := hready.armed.closing _ _ _ _ _ x hpc hx
        rw [harg] at hnone
        cases hnone
      have hclosed := close_awaited (fun (_ : o.frees = true) => hcleared) hready hs
      have hfree : ∀ q, OpenTcp s.nextPcb s.pcbs q → (s.pcbs q).state ≠ e := by
        rintro q hq rfl
        rcases hin.isOpen q hq.1.1 hq.1.2 hq.2 with hentry | ⟨f, hclosing⟩
        · have hnone := (hin.closing p _ (by rw [hpc]; rfl)).2.2.2.1
          rw [hentry] at hnone
          cases hnone
        · rw [hpc] at hclosing
          cases hclosing
          have herr := hloopOk.2.2 rfl
          rw [hq.2] at herr
          cases herr
      exact (hclosed.setFree hfree).setPcbs .set sendCount_set
  | _ => exact hs

/-- The connection that `go_tcp_close_h` is to close. -/
theorem Sys.closes_eq {a e : Ptr} {x : TcpPcb} (ha : s.tpcbs a = some x) (harg : x.arg = some e) :
    ((s.tpcbs a).bind (·.arg)).bind s.tcpPcbs = s.tcpPcbs e := by
  rw [ha, Option.bind_some, harg, Option.bind_some]

theorem CallbackStep.awaited {cb : Callback} (h : CallbackStep cfg s o cb t)
    (hok : WakerOk s (.callback cb o)) (hready : s.WakerReady) (hchains : Chains s.heap)
    (hs : s.InAwaited) : t.InAwaited := by
  have hin := hready.order.table
  have served : ∀ p, s.closes cb = some p → (s.pcbs p).sendCount = 1 →
      Left s.heap (s.pcbs p).toFlow := by
    intro p hcloses hone
    by_contra hleft
    exact hok p hcloses ⟨hone, hleft⟩
  have acked : ∀ {a e p x y}, s.tpcbs a = some x → x.arg = some e → s.tcpPcbs e = some p →
      ∀ q, q ≠ p → OpenTcp s.nextPcb s.pcbs q →
        KeepsWaker s.heap s.heap s.tpcbs (Function.update s.tpcbs a y) (s.pcbs q).toFlow := by
    intro a e p x y ha harg hp q hq hopen
    have hkept := hin.other_conn ha harg hp hq hopen (s.heap e) y
    rwa [Function.update_eq_self] at hkept
  have alive : ∀ {a e p x n}, s.tpcbs a = some x → x.arg = some e → s.tcpPcbs e = some p →
      Alive (Function.update s.tpcbs a (some { x with unacked := n })) (s.pcbs p).toFlow := by
    intro a e p x n ha harg hp
    obtain ⟨q, hq, hconn, hpcb⟩ := hin.registered a x e ha harg
    rw [hp] at hq
    cases hq
    exact ⟨{ x with unacked := n }, by rw [hpcb, Function.update_self], hconn.symm⟩
  cases h with
  | accept ha he =>
      exact hs.enter ha he rfl rfl rfl
  | recvClosed _ _ _ hes _ _ => exact hs.setHeap hes rfl id
  | recvEmpty _ _ _ hes _ _ => exact hs.setHeap hes rfl id
  | recv _ _ _ hes _ _ _ => exact hs.setHeap hes rfl id
  | @fin a e p x es err ha harg hp hes _ =>
      have hstate := (hin.known e p hp).2.2
      refine hs.leave hstate (fun q hq hopen => hin.other_conn ha harg hp hq hopen _ _) ?_
      intro hone
      obtain ⟨fs, hfs, hsame, hpending⟩ := served p ((Sys.closes_eq ha harg).trans hp) hone
      rw [hstate, hes] at hfs
      cases hfs
      exact ⟨{ es with state := .closing },
        by rw [hstate]; exact Function.update_self .., hsame, hpending⟩
  | @err a e p x es ha harg hp hes _ =>
      exact hs.leave (hin.known e p hp).2.2 (acked ha harg hp)
        (served p ((Sys.closes_eq ha harg).trans hp))
  | sentMore ha harg hp hes _ hpending hrun =>
      exact resumed_awaited hin hchains ha harg hp hes hpending hrun hs
  | pollMore ha harg hp hes _ hpending hrun =>
      exact resumed_awaited hin hchains ha harg hp hes hpending hrun hs
  | @sentIdle a e p x es len ha harg hp hes _ _ hcount =>
      have hafter := hs.change (p := p) (x := s.pcbs p) rfl (fun _ _ hentry => hentry)
        (acked ha harg hp) (fun _ _ => alive (n := x.unacked - len) ha harg hp) (by
        intro hopen hone
        rcases hcount with herr | hzero
        · rw [hopen.2] at herr
          cases herr
        · rw [hzero] at hone
          cases hone) id
      rwa [Function.update_eq_self] at hafter
  | @sent a e p x es len ha harg hp hes _ _ herr hcount =>
      obtain ⟨hlt, htype, _⟩ := hin.known e p hp
      have hlive := live_le_one hready.shaken ⟨hlt, htype⟩
      refine hs.change rfl (fun _ _ hentry => hentry) (acked ha harg hp)
        (fun _ _ => alive ha harg hp) ?_ (by exact id)
      intro _ hone
      simp only [PCB.live] at hlive hone
      omega
  | udpNew _ _ => exact hs.newPcb rfl
  | _ => exact hs

theorem Step.awaited {a : Act} (h : Step cfg s a t) (hok : WakerOk s a) (hready : s.WakerReady)
    (hchains : Chains s.heap) (hs : s.InAwaited) : t.InAwaited := by
  by_cases ha : a.ofGoroutine = true
  · exact (h.loopKept ha).awaited hs
  cases h with
  | @takeClose o p q _ hrecv htype =>
      refine close_awaited ?_ hready hs
      intro hfrees
      exact hok hfrees p _ (Chan.recv_some hrecv).1 htype
  | loop hpc h => exact h.awaited hpc hok hready hs
  | callback _ h => exact h.awaited hok hready hchains hs
  | release _ _ _ => exact spare_awaited hok hready hs none
  | _ => first | exact absurd rfl ha | exact hs

theorem done_of_grants {pc : LoopPc} (h : pc.grants p ≠ 0) : ∃ a e k, pc = .done p a e k := by
  cases pc with
  | done q a e k =>
      by_cases hq : q = p
      · exact ⟨a, e, k, by rw [hq]⟩
      · exact absurd (if_neg hq) h
  | _ => exact absurd rfl h

/-- A state in which each counted Write has a waker. -/
theorem wakeable_of_awaited (hready : s.WakerReady) (hs : s.InAwaited) : s.Wakeable := by
  intro th p w hth hblocked
  have hp : Thread.Ok s.nextPcb s.pcbs (.write p w .wait) := hth ▸ hready.order.known.threads th
  obtain ⟨hempty, hunclosed⟩ := Chan.recv_blocked_iff.mp hblocked
  cases herr : (s.pcbs p).err with
  | true =>
      rw [hready.shut.closed hready.locked hp herr hth] at hunclosed
      cases hunclosed
  | false =>
      rcases (hready.shaken p hp).waiting herr w ⟨th, by rw [hth]; rfl⟩ with
        ⟨hpending, _⟩ | ⟨_, hone⟩
      · refine Or.inl (mem_pendingOn.mp ?_)
        rw [hpending]
        exact List.mem_singleton_self w
      · simp only [PCB.live, hempty, List.length_nil, Nat.add_zero] at hone
        by_cases hcount : (s.pcbs p).sendCount = 1
        · rcases hs.counted p ⟨hp, herr⟩ hcount with hleft | hdue
          · exact Or.inr (Or.inl hleft)
          · exact Or.inr (Or.inr (Or.inl hdue))
        · exact Or.inr (Or.inr (Or.inr (done_of_grants (by omega))))

/-- No waiting `Write` lacks a waker. -/
theorem run_wakeable {tr : List (Sys × Act)} (hrun : (bridge cfg).Run tr s)
    (hok : Machine.Meets WakerOk tr) : s.Wakeable := by
  have hinv : Chains s.heap ∧ s.InAwaited := by
    refine hrun.invariant_under (I := fun s => Chains s.heap ∧ s.InAwaited) hok
      reachable_wakerReady ?_ ?_
    · exact ⟨nofun, ⟨fun p hp => absurd hp.1.1 (Nat.not_lt_zero p),
        fun p hp => absurd hp.1.1 (Nat.not_lt_zero p)⟩⟩
    · rintro s a t hready _ ⟨hchains, hawaited⟩ hstepOk hstep
      have hstep' := step_cases hready.order hstep
      exact ⟨hstep'.chains hstepOk hchains, hstep'.awaited hstepOk hready hchains hawaited⟩
  exact wakeable_of_awaited (reachable_wakerReady hrun.reachable) hinv.2

/-- Every `Send` queues its bytes, and nothing is closed or released. -/
def Schedule.wakes (s : Sys) : Act → Bool
  | .loop o => match s.loop with
    | .send entry => u16 (s.bufs entry.data).data.length ≠ 0 ∧ o.alloc = true
    | _ => true
  | .callback cb _ => (s.closes cb).isNone
  | .take .close _ | .release _ => false
  | _ => true

/-- A `Write` of one byte whose acknowledgement is due. -/
theorem run_wakeable_due : ∃ tr s, (bridge Schedule.config).Run tr s ∧
    s.threads 0 = .write 0 0 .wait ∧ (s.pcbs 0).sendWait.recv = .blocked ∧
      s.sendQueue.buf = [] ∧ s.Wakeable := by
  obtain ⟨tr, s, hrun, hmeets, htest⟩ := Machine.exists_run_of_exec (bridge Schedule.config)
    Schedule.wakes
    (Schedule.accept ++ [.loop Schedule.fine] ++ Schedule.write [7] ++
      [.take .send Schedule.fine, .loop Schedule.fine])
    (fun s => s.threads 0 = .write 0 0 .wait ∧ (s.pcbs 0).sendWait.buf = [] ∧
      (s.pcbs 0).sendWait.closed = false ∧ s.sendQueue.buf = []) (by decide)
  obtain ⟨hth, hempty, hopen, hqueue⟩ := of_decide_eq_true htest
  have hok : Machine.Meets WakerOk tr := by
    refine hmeets.mono ?_
    intro s a hok
    cases a with
    | loop o =>
        intro p w hloop _ _
        simp only [Schedule.wakes, hloop] at hok
        obtain ⟨hlen, halloc⟩ := of_decide_eq_true hok
        exact ⟨hlen, Or.inl halloc⟩
    | callback cb o =>
        intro p hcloses
        rw [Option.isNone_iff_eq_none.mp hok] at hcloses
        cases hcloses
    | take source o =>
        cases source with
        | close => cases hok
        | _ => trivial
    | release a => cases hok
    | _ => trivial
  exact ⟨tr, s, hrun, hth, Chan.recv_blocked_iff.mpr ⟨hempty, hopen⟩, hqueue,
    run_wakeable hrun hok⟩

/-- `pbuf_alloc` fails in `Send`, and nothing is left that could wake the `Write`. -/
theorem not_wakeable_alloc : ∃ s, (bridge Schedule.config).Reachable s ∧ s.loop = .select ∧
    ¬s.Wakeable := by
  obtain ⟨tr, s, hrun, _, htest⟩ := Machine.exists_run_of_exec (bridge Schedule.config)
    (fun _ _ => true)
    (Schedule.accept ++ [.loop Schedule.fine] ++ Schedule.write [7] ++
      [.take .send Schedule.fine, .loop { Schedule.fine with alloc := false }])
    (fun s => s.threads 0 = .write 0 0 .wait ∧ (s.pcbs 0).sendWait.buf = [] ∧
      (s.pcbs 0).sendWait.closed = false ∧ s.loop = .select ∧ s.sendQueue.buf = [] ∧
      (s.heap (s.pcbs 0).state).all (·.p = []) ∧ (s.tpcbs (s.pcbs 0).pcb).all (·.unacked = 0))
    (by decide)
  obtain ⟨hth, hempty, hopen, hloop, hqueue, hheap, htpcb⟩ := of_decide_eq_true htest
  refine ⟨s, hrun.reachable, hloop, ?_⟩
  intro hwakeable
  rcases hwakeable 0 0 0 hth (Chan.recv_blocked_iff.mpr ⟨hempty, hopen⟩) with
    hentry | ⟨es, hes, _, hpending⟩ | ⟨x, hx, _, _, hpos⟩ | ⟨a, e, k, hdone⟩
  · rw [hloop, hqueue] at hentry
    cases hentry
  · rw [hes] at hheap
    exact hpending (of_decide_eq_true hheap)
  · rw [hx] at htpcb
    exact absurd (of_decide_eq_true htpcb) (Nat.ne_of_gt hpos)
  · rw [hloop] at hdone
    cases hdone

end LwipCs
