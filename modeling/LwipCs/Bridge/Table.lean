import LwipCs.Bridge.EventLoop

/-!
# The connection table and the C objects

`Table` relates `tcpPcbs`, the allocated `cs_tcp_raw_state` objects, the callback
arguments lwIP holds and the TCP PCBs. While the loop is inside `go_tcp_close_h`
one object has lost its entry and is not freed yet; `LoopPc.closing` names it.

Fields of a PCB that `newPCB` fixes, and the components the predicate speaks
about, are passed one by one, so that a step that changes none of them keeps it
by definition.
-/

namespace LwipCs

/-- The PCB the loop is closing, with the address of its state object. -/
def LoopPc.closing : LoopPc → Option (PcbId × Ptr)
  | .close p _ _ e _ => some (p, e)
  | _ => none

/-- A state object whose connection is not being closed. -/
def RawState.Live (es : RawState) : Prop := es.state = .accepted ∨ es.state = .received

theorem RawState.Live.ne_closing {es : RawState} (h : es.Live) : es.state ≠ .closing := by
  rcases h with h | h <;> rw [h] <;> nofun

/-- Places of `PCB.close` where `err` is set. -/
def ClosePc.erred : ClosePc → Bool
  | .closeRecv | .closeWait | .unlock => true
  | _ => false

/-- A callback or a close in progress concerns the PCB it was dispatched to. -/
def LoopOk (pcbs : PcbId → PCB) (tcpPcbs : Ptr → Option PcbId) : LoopPc → Prop
  | .push p _ (.tcp k) _ =>
      tcpPcbs (pcbs p).state = some p ∧ (pcbs p).conn = k ∧ (pcbs p).type = .tcp
  | .done p a e k => tcpPcbs e = some p ∧ (pcbs p).conn = k ∧ (pcbs p).pcb = a
  | .close p pc a _ k =>
      (pcbs p).conn = k ∧ (pcbs p).pcb = a ∧ (pc.erred = true → (pcbs p).err = true)
  | _ => True

/-- The table, the heap and lwIP's callback arguments agree. -/
structure Table (nextPcb : PcbId) (pcbs : PcbId → PCB) (tcpPcbs : Ptr → Option PcbId)
    (heap : Ptr → Option RawState) (tpcbs : Ptr → Option TcpPcb) (nextConn : ConnId)
    (loop : LoopPc) : Prop where
  /-- an entry is a TCP PCB -/
  known : ∀ e p, tcpPcbs e = some p →
    p < nextPcb ∧ (pcbs p).type = .tcp ∧ (pcbs p).state = e
  /-- the object under an entry was allocated by the accept that made the entry -/
  entry : ∀ e p, tcpPcbs e = some p →
    ∃ es, heap e = some es ∧ es.conn = (pcbs p).conn ∧ es.pcb = (pcbs p).pcb ∧ es.Live
  allocated : ∀ e es, heap e = some es →
    (∃ p, tcpPcbs e = some p) ∨ ∃ p, loop.closing = some (p, e)
  /-- a callback argument is the address under which the connection's PCB is entered -/
  registered : ∀ a x e, tpcbs a = some x → x.arg = some e →
    ∃ p, tcpPcbs e = some p ∧ (pcbs p).conn = x.conn ∧ (pcbs p).pcb = a
  /-- an open TCP PCB is in the table until the loop closes it -/
  isOpen : ∀ p, p < nextPcb → (pcbs p).type = .tcp → (pcbs p).err = false →
    tcpPcbs (pcbs p).state = some p ∨ ∃ e, loop.closing = some (p, e)
  closing : ∀ p e, loop.closing = some (p, e) →
    p < nextPcb ∧ (pcbs p).type = .tcp ∧ (pcbs p).state = e ∧ tcpPcbs e = none ∧
      ∃ es, heap e = some es ∧ es.conn = (pcbs p).conn
  conn_lt : ∀ p, p < nextPcb → (pcbs p).type = .tcp → (pcbs p).conn < nextConn
  /-- a connection has one PCB -/
  conn_inj : ∀ p q, p < nextPcb → q < nextPcb → (pcbs p).type = .tcp → (pcbs q).type = .tcp →
    (pcbs p).conn = (pcbs q).conn → p = q
  tpcb_lt : ∀ a x, tpcbs a = some x → x.conn < nextConn
  loopOk : LoopOk pcbs tcpPcbs loop

/-- `Table` of a state of the system. -/
abbrev Sys.InTable (s : Sys) : Prop :=
  Table s.nextPcb s.pcbs s.tcpPcbs s.heap s.tpcbs s.nextConn s.loop

namespace Table

variable {nextPcb : PcbId} {pcbs : PcbId → PCB} {tcpPcbs : Ptr → Option PcbId}
variable {heap : Ptr → Option RawState} {tpcbs : Ptr → Option TcpPcb} {nextConn : ConnId}
variable {loop : LoopPc}

/-- A callback finds the entry and the object of its connection. -/
theorem callback (h : Table nextPcb pcbs tcpPcbs heap tpcbs nextConn loop) {a e : Ptr}
    {x : TcpPcb} (ha : tpcbs a = some x) (harg : x.arg = some e) :
    ∃ p es, tcpPcbs e = some p ∧ heap e = some es ∧ es.conn = x.conn ∧ es.pcb = a ∧
      es.Live ∧ (pcbs p).conn = x.conn ∧ (pcbs p).pcb = a := by
  obtain ⟨p, hp, hconn, hpcb⟩ := h.registered a x e ha harg
  obtain ⟨es, hes, hesconn, hespcb, hlive⟩ := h.entry e p hp
  exact ⟨p, es, hp, hes, hesconn.trans hconn, hespcb.trans hpcb, hlive, hconn, hpcb⟩

/-- A free address has no entry. -/
theorem not_entered (h : Table nextPcb pcbs tcpPcbs heap tpcbs nextConn loop) {e : Ptr}
    (he : heap e = none) : tcpPcbs e = none := by
  cases hp : tcpPcbs e with
  | none => rfl
  | some p =>
      obtain ⟨es, hes, _⟩ := h.entry e p hp
      rw [he] at hes
      cases hes

/-- A step may change the fields of a PCB that are not fixed at its making, and
may set `err`. -/
theorem setPcbs (h : Table nextPcb pcbs tcpPcbs heap tpcbs nextConn loop)
    {pcbs' : PcbId → PCB} (hkept : PcbsKept pcbs pcbs') :
    Table nextPcb pcbs' tcpPcbs heap tpcbs nextConn loop := by
  have flow := hkept.flow
  have hok : LoopOk pcbs' tcpPcbs loop := by
    have hloop := h.loopOk
    cases loop with
    | push q data ctx target =>
        cases ctx with
        | tcp k => simpa only [LoopOk, flow] using hloop
        | udp src dst old => trivial
    | done q a e k => simpa only [LoopOk, flow] using hloop
    | close q pc a e k =>
        simp only [LoopOk, flow]
        refine ⟨hloop.1, hloop.2.1, fun hpc => ?_⟩
        by_contra hne
        exact absurd (hkept.isOpen q (by simpa using hne)) (by simp [hloop.2.2 hpc])
    | _ => trivial
  refine { h with known := ?known, entry := ?entry, registered := ?registered, isOpen := ?isOpen,
                  closing := ?closing, conn_lt := ?conn_lt, conn_inj := ?conn_inj, loopOk := hok }
  case isOpen =>
    simp only [flow]
    exact fun q hq htype hopen => h.isOpen q hq htype (hkept.isOpen q hopen)
  case known => simpa only [flow] using h.known
  case entry => simpa only [flow] using h.entry
  case registered => simpa only [flow] using h.registered
  case closing => simpa only [flow] using h.closing
  case conn_lt => simpa only [flow] using h.conn_lt
  case conn_inj => simpa only [flow] using h.conn_inj

/-- The loop moves between places outside callbacks. -/
theorem goto (h : Table nextPcb pcbs tcpPcbs heap tpcbs nextConn loop) {pc : LoopPc}
    (hloop : loop.closing = pc.closing) (hok : LoopOk pcbs tcpPcbs pc) :
    Table nextPcb pcbs tcpPcbs heap tpcbs nextConn pc :=
  { h with
    allocated := hloop ▸ h.allocated
    isOpen := hloop ▸ h.isOpen
    closing := hloop ▸ h.closing
    loopOk := hok }

/-- lwIP or the bridge may drop pcbs and callback arguments. -/
theorem setTpcb (h : Table nextPcb pcbs tcpPcbs heap tpcbs nextConn loop) {a : Ptr}
    {y : Option TcpPcb} (hy : ∀ y' ∈ y, ∃ x, tpcbs a = some x ∧ y'.conn = x.conn ∧
      (y'.arg = none ∨ y'.arg = x.arg)) :
    Table nextPcb pcbs tcpPcbs heap (Function.update tpcbs a y) nextConn loop := by
  have old : ∀ b y', Function.update tpcbs a y b = some y' →
      ∃ x, tpcbs b = some x ∧ y'.conn = x.conn ∧ (y'.arg = none ∨ y'.arg = x.arg) := by
    intro b y' hb
    by_cases hab : b = a
    · subst hab
      rw [Function.update_self] at hb
      exact hy y' hb
    · rw [Function.update_of_ne hab] at hb
      exact ⟨y', hb, rfl, Or.inr rfl⟩
  refine { h with registered := ?registered, tpcb_lt := ?tpcb_lt }
  case registered =>
    intro b y' e hb harg
    obtain ⟨x, hx, hconn, hnone | hsame⟩ := old b y' hb
    · rw [hnone] at harg
      cases harg
    · rw [hconn]
      exact h.registered b x e hx (hsame ▸ harg)
  case tpcb_lt =>
    intro b y' hb
    obtain ⟨x, hx, hconn, _⟩ := old b y' hb
    rw [hconn]
    exact h.tpcb_lt b x hx

/-- An object may change, but keeps its connection and stays live. -/
theorem setHeap (h : Table nextPcb pcbs tcpPcbs heap tpcbs nextConn loop) {e : Ptr}
    {es es' : RawState} (hes : heap e = some es) (hlive : es.Live → es'.Live)
    (hconn : es'.conn = es.conn) (hpcb : es'.pcb = es.pcb) :
    Table nextPcb pcbs tcpPcbs (Function.update heap e (some es')) tpcbs nextConn loop := by
  have new : ∀ f fs, heap f = some fs → ∃ fs', Function.update heap e (some es') f = some fs' ∧
      fs'.conn = fs.conn ∧ fs'.pcb = fs.pcb ∧ (fs.Live → fs'.Live) := by
    intro f fs hf
    by_cases hfe : f = e
    · subst hfe
      rw [hes] at hf
      cases hf
      exact ⟨es', Function.update_self .., hconn, hpcb, hlive⟩
    · exact ⟨fs, by rw [Function.update_of_ne hfe, hf], rfl, rfl, id⟩
  refine { h with entry := ?entry, allocated := ?allocated, closing := ?closing }
  case entry =>
    intro f p hp
    obtain ⟨fs, hf, hfconn, hfpcb, hflive⟩ := h.entry f p hp
    obtain ⟨fs', hf', hconn', hpcb', hlive'⟩ := new f fs hf
    exact ⟨fs', hf', hconn'.trans hfconn, hpcb'.trans hfpcb, hlive' hflive⟩
  case allocated =>
    intro f fs' hf'
    by_cases hfe : f = e
    · subst hfe
      exact h.allocated f es hes
    · rw [Function.update_of_ne hfe] at hf'
      exact h.allocated f fs' hf'
  case closing =>
    intro p f hloop
    obtain ⟨hp, htype, hpstate, hnone, fs, hf, hfconn⟩ := h.closing p f hloop
    obtain ⟨fs', hf', hconn', _⟩ := new f fs hf
    exact ⟨hp, htype, hpstate, hnone, fs', hf', hconn'.trans hfconn⟩

/-- The bridge forgets a connection's entry and its callback argument, and goes
on to close the PCB. -/
theorem rawClosing (h : Table nextPcb pcbs tcpPcbs heap tpcbs nextConn loop)
    {heap' : Ptr → Option RawState} {tpcbs' : Ptr → Option TcpPcb} {a e : Ptr} {k : ConnId}
    {p : PcbId} (hloop : loop.closing = none) (hp : tcpPcbs e = some p)
    (hconn : (pcbs p).conn = k) (hpcb : (pcbs p).pcb = a)
    (hheap : ∀ f, f ≠ e → heap' f = heap f) (hobj : ∃ es, heap' e = some es ∧ es.conn = k)
    (htpcbs : ∀ b x, tpcbs' b = some x → ∃ y, tpcbs b = some y ∧ x.conn = y.conn ∧
      (x.arg = none ∨ x.arg = y.arg ∧ b ≠ a)) :
    Table nextPcb pcbs (Function.update tcpPcbs e none) heap' tpcbs' nextConn
      (.close p .lock a e k) := by
  have old : ∀ f q, Function.update tcpPcbs e none f = some q → f ≠ e ∧ tcpPcbs f = some q := by
    intro f q hf
    by_cases hfe : f = e
    · subst hfe
      rw [Function.update_self] at hf
      cases hf
    · rw [Function.update_of_ne hfe] at hf
      exact ⟨hfe, hf⟩
  obtain ⟨hplt, hptype, hpstate⟩ := h.known e p hp
  refine { h with known := ?known, entry := ?entry, allocated := ?allocated,
                  registered := ?registered, isOpen := ?isOpen, closing := ?closing,
                  tpcb_lt := ?tpcb_lt, loopOk := ⟨hconn, hpcb, nofun⟩ }
  case known =>
    intro f q hf
    exact h.known f q (old f q hf).2
  case entry =>
    intro f q hf
    obtain ⟨hfe, hf⟩ := old f q hf
    rw [hheap f hfe]
    exact h.entry f q hf
  case allocated =>
    intro f fs hf
    by_cases hfe : f = e
    · subst hfe
      exact Or.inr ⟨p, rfl⟩
    · rw [hheap f hfe] at hf
      rcases h.allocated f fs hf with ⟨q, hq⟩ | ⟨q, hq⟩
      · exact Or.inl ⟨q, by rwa [Function.update_of_ne hfe]⟩
      · rw [hloop] at hq
        cases hq
  case registered =>
    intro b x f hb harg
    obtain ⟨y, hy, hxy, hnone | ⟨hsame, hba⟩⟩ := htpcbs b x hb
    · rw [hnone] at harg
      cases harg
    · obtain ⟨q, hq, hqconn, hqpcb⟩ := h.registered b y f hy (hsame ▸ harg)
      have hfe : f ≠ e := by
        intro hfe
        subst hfe
        rw [hp] at hq
        cases hq
        exact hba (hqpcb.symm.trans hpcb)
      exact ⟨q, by rwa [Function.update_of_ne hfe], hqconn.trans hxy.symm, hqpcb⟩
  case isOpen =>
    intro q hq htype hopen
    rcases h.isOpen q hq htype hopen with hin | ⟨f, hf⟩
    · by_cases hqe : (pcbs q).state = e
      · rw [hqe, hp] at hin
        cases hin
        exact Or.inr ⟨e, rfl⟩
      · exact Or.inl (by rwa [Function.update_of_ne hqe])
    · rw [hloop] at hf
      cases hf
  case closing =>
    intro q f hqf
    cases hqf
    obtain ⟨es, hes, hesconn⟩ := hobj
    exact ⟨hplt, hptype, hpstate, Function.update_self .., es, hes, hesconn.trans hconn.symm⟩
  case tpcb_lt =>
    intro b x hb
    obtain ⟨y, hy, hxy, _⟩ := htpcbs b x hb
    rw [hxy]
    exact h.tpcb_lt b y hy

/-- The object of a closed PCB is freed. -/
theorem freed {p : PcbId} {pc : ClosePc} {a e : Ptr} {k : ConnId}
    (h : Table nextPcb pcbs tcpPcbs heap tpcbs nextConn (.close p pc a e k))
    (herr : (pcbs p).err = true) :
    Table nextPcb pcbs tcpPcbs (Function.update heap e none) tpcbs nextConn .lwip := by
  obtain ⟨_, _, _, hnone, _⟩ := h.closing p e rfl
  refine { h with entry := ?entry, allocated := ?allocated, isOpen := ?isOpen,
                  closing := nofun, loopOk := trivial }
  case entry =>
    intro f q hf
    have hfe : f ≠ e := by
      intro hfe
      subst hfe
      rw [hnone] at hf
      cases hf
    rw [Function.update_of_ne hfe]
    exact h.entry f q hf
  case allocated =>
    intro f fs hf
    by_cases hfe : f = e
    · subst hfe
      rw [Function.update_self] at hf
      cases hf
    · rw [Function.update_of_ne hfe] at hf
      rcases h.allocated f fs hf with hin | ⟨q, hq⟩
      · exact Or.inl hin
      · cases hq
        exact absurd rfl hfe
  case isOpen =>
    intro q hq htype hopen
    rcases h.isOpen q hq htype hopen with hin | ⟨f, hf⟩
    · exact Or.inl hin
    · cases hf
      rw [herr] at hopen
      cases hopen

/-! #### New PCBs -/

/-- The PCBs before a new one are as they were. -/
theorem update_old (x : PCB) {q : PcbId} (hq : q < nextPcb) :
    Function.update pcbs nextPcb x q = pcbs q :=
  Function.update_of_ne (Nat.ne_of_lt hq) ..

/-- A PCB is made while the loop closes nothing. -/
theorem addPcb (h : Table nextPcb pcbs tcpPcbs heap tpcbs nextConn .lwip) {x : PCB}
    (htype : x.type = .udp) :
    Table (nextPcb + 1) (Function.update pcbs nextPcb x) tcpPcbs heap tpcbs nextConn .lwip := by
  have old : ∀ q, q < nextPcb + 1 → (Function.update pcbs nextPcb x q).type = .tcp →
      q < nextPcb := by
    intro q hq htcp
    rcases Nat.lt_succ_iff_lt_or_eq.mp hq with hlt | rfl
    · exact hlt
    · rw [Function.update_self, htype] at htcp
      cases htcp
  refine { h with known := ?known, entry := ?entry, registered := ?registered, isOpen := ?isOpen,
                  closing := nofun, conn_lt := ?conn_lt, conn_inj := ?conn_inj, loopOk := trivial }
  case known =>
    intro e p hp
    obtain ⟨hlt, hrest⟩ := h.known e p hp
    rw [update_old x hlt]
    exact ⟨Nat.lt_succ_of_lt hlt, hrest⟩
  case entry =>
    intro e p hp
    rw [update_old x (h.known e p hp).1]
    exact h.entry e p hp
  case registered =>
    intro a y e ha harg
    obtain ⟨p, hp, hrest⟩ := h.registered a y e ha harg
    refine ⟨p, hp, ?_⟩
    rw [update_old x (h.known e p hp).1]
    exact hrest
  case isOpen =>
    intro q hq htcp hopen
    have hlt := old q hq htcp
    rw [update_old x hlt] at htcp hopen ⊢
    exact h.isOpen q hlt htcp hopen
  case conn_lt =>
    intro q hq htcp
    have hlt := old q hq htcp
    rw [update_old x hlt] at htcp ⊢
    exact h.conn_lt q hlt htcp
  case conn_inj =>
    intro p q hp hq hptcp hqtcp
    have hplt := old p hp hptcp
    have hqlt := old q hq hqtcp
    rw [update_old x hplt] at hptcp ⊢
    rw [update_old x hqlt] at hqtcp ⊢
    exact h.conn_inj p q hplt hqlt hptcp hqtcp

/-- The PCB `x`, the object `es` and the pcb `y` that an accept makes for the connection `k`,
with the object at `e` and the pcb at `a`. -/
structure Fresh (x : PCB) (es : RawState) (y : TcpPcb) (a e : Ptr) (k : ConnId) : Prop where
  type : x.type = .tcp
  state : x.state = e
  pcb : x.pcb = a
  conn : x.conn = k
  object : es.conn = k ∧ es.pcb = a ∧ es.Live
  callback : y.conn = k ∧ y.arg = some e

section

variable {x : PCB} {es : RawState} {y : TcpPcb} {a e : Ptr}

/-- An accept keeps the entries apart from the new one. -/
theorem entry_ne (h : Table nextPcb pcbs tcpPcbs heap tpcbs nextConn loop) (he : heap e = none)
    {f : Ptr} {p : PcbId} (hf : tcpPcbs f = some p) : f ≠ e := by
  intro hfe
  rw [hfe, h.not_entered he] at hf
  cases hf

theorem accept_known (h : Table nextPcb pcbs tcpPcbs heap tpcbs nextConn .lwip)
    (hnew : Fresh x es y a e nextConn) (f : Ptr) (p : PcbId)
    (hp : Function.update tcpPcbs e (some nextPcb) f = some p) :
    p < nextPcb + 1 ∧ (Function.update pcbs nextPcb x p).type = .tcp ∧
      (Function.update pcbs nextPcb x p).state = f := by
  obtain ⟨rfl, rfl⟩ | ⟨_, hp⟩ := update_cases hp
  · rw [Function.update_self]
    exact ⟨Nat.lt_succ_self _, hnew.type, hnew.state⟩
  · obtain ⟨hlt, hrest⟩ := h.known f p hp
    rw [update_old x hlt]
    exact ⟨Nat.lt_succ_of_lt hlt, hrest⟩

theorem accept_entry (h : Table nextPcb pcbs tcpPcbs heap tpcbs nextConn .lwip)
    (hnew : Fresh x es y a e nextConn) (f : Ptr) (p : PcbId)
    (hp : Function.update tcpPcbs e (some nextPcb) f = some p) :
    ∃ fs, Function.update heap e (some es) f = some fs ∧
      fs.conn = (Function.update pcbs nextPcb x p).conn ∧
      fs.pcb = (Function.update pcbs nextPcb x p).pcb ∧ fs.Live := by
  obtain ⟨rfl, rfl⟩ | ⟨hfe, hp⟩ := update_cases hp
  · obtain ⟨hconn, hpcb, hlive⟩ := hnew.object
    rw [Function.update_self, Function.update_self]
    exact ⟨es, rfl, hconn.trans hnew.conn.symm, hpcb.trans hnew.pcb.symm, hlive⟩
  · rw [Function.update_of_ne hfe, update_old x (h.known f p hp).1]
    exact h.entry f p hp

theorem accept_registered (h : Table nextPcb pcbs tcpPcbs heap tpcbs nextConn .lwip)
    (he : heap e = none) (hnew : Fresh x es y a e nextConn) (b : Ptr) (z : TcpPcb) (f : Ptr)
    (hb : Function.update tpcbs a (some y) b = some z) (harg : z.arg = some f) :
    ∃ p, Function.update tcpPcbs e (some nextPcb) f = some p ∧
      (Function.update pcbs nextPcb x p).conn = z.conn ∧
      (Function.update pcbs nextPcb x p).pcb = b := by
  obtain ⟨rfl, rfl⟩ | ⟨_, hb⟩ := update_cases hb
  · obtain ⟨hconn, hsame⟩ := hnew.callback
    rw [hsame] at harg
    cases harg
    refine ⟨nextPcb, Function.update_self .., ?_⟩
    rw [Function.update_self]
    exact ⟨hnew.conn.trans hconn.symm, hnew.pcb⟩
  · obtain ⟨p, hp, hrest⟩ := h.registered b z f hb harg
    refine ⟨p, by rwa [Function.update_of_ne (h.entry_ne he hp)], ?_⟩
    rw [update_old x (h.known f p hp).1]
    exact hrest

theorem accept_isOpen (h : Table nextPcb pcbs tcpPcbs heap tpcbs nextConn .lwip)
    (he : heap e = none) (hnew : Fresh x es y a e nextConn) (q : PcbId) (hq : q < nextPcb + 1)
    (htcp : (Function.update pcbs nextPcb x q).type = .tcp)
    (hopen : (Function.update pcbs nextPcb x q).err = false) :
    Function.update tcpPcbs e (some nextPcb) (Function.update pcbs nextPcb x q).state =
      some q := by
  rcases Nat.lt_succ_iff_lt_or_eq.mp hq with hlt | rfl
  · rw [update_old x hlt] at htcp hopen ⊢
    rcases h.isOpen q hlt htcp hopen with hin | ⟨f, hf⟩
    · rwa [Function.update_of_ne (h.entry_ne he hin)]
    · cases hf
  · rw [Function.update_self, hnew.state, Function.update_self]

/-- The identity of the new connection is not yet taken. -/
theorem accept_conn (h : Table nextPcb pcbs tcpPcbs heap tpcbs nextConn .lwip)
    (hnew : Fresh x es y a e nextConn) (q : PcbId) (hq : q < nextPcb + 1)
    (htcp : (Function.update pcbs nextPcb x q).type = .tcp) :
    (q = nextPcb ∧ (Function.update pcbs nextPcb x q).conn = nextConn) ∨
      (q < nextPcb ∧ (pcbs q).type = .tcp ∧
        (Function.update pcbs nextPcb x q).conn = (pcbs q).conn ∧ (pcbs q).conn < nextConn) := by
  rcases Nat.lt_succ_iff_lt_or_eq.mp hq with hlt | rfl
  · rw [update_old x hlt] at htcp ⊢
    exact Or.inr ⟨hlt, htcp, rfl, h.conn_lt q hlt htcp⟩
  · rw [Function.update_self]
    exact Or.inl ⟨rfl, hnew.conn⟩

/-- An accept enters a new PCB for a new object of a new connection. -/
theorem accept (h : Table nextPcb pcbs tcpPcbs heap tpcbs nextConn .lwip) (he : heap e = none)
    (hnew : Fresh x es y a e nextConn) :
    Table (nextPcb + 1) (Function.update pcbs nextPcb x)
      (Function.update tcpPcbs e (some nextPcb)) (Function.update heap e (some es))
      (Function.update tpcbs a (some y)) (nextConn + 1) .lwip where
  known := h.accept_known hnew
  entry := h.accept_entry hnew
  allocated f fs hf := by
    obtain ⟨rfl, rfl⟩ | ⟨hfe, hf⟩ := update_cases hf
    · exact Or.inl ⟨nextPcb, Function.update_self ..⟩
    · rcases h.allocated f fs hf with ⟨p, hp⟩ | ⟨p, hp⟩
      · exact Or.inl ⟨p, by rwa [Function.update_of_ne hfe]⟩
      · cases hp
  registered := h.accept_registered he hnew
  isOpen q hq htcp hopen := Or.inl (h.accept_isOpen he hnew q hq htcp hopen)
  closing := nofun
  conn_lt q hq htcp := by
    obtain ⟨_, hconn⟩ | ⟨_, _, hconn, hlt⟩ := h.accept_conn hnew q hq htcp
    · rw [hconn]
      exact Nat.lt_succ_self _
    · rw [hconn]
      exact Nat.lt_succ_of_lt hlt
  conn_inj p q hp hq hptcp hqtcp hpq := by
    obtain ⟨rfl, hpconn⟩ | ⟨hplt, hptcp, hpconn, hpless⟩ := h.accept_conn hnew p hp hptcp
    · obtain ⟨rfl, _⟩ | ⟨_, _, hqconn, hqless⟩ := h.accept_conn hnew q hq hqtcp
      · rfl
      · rw [hpconn, hqconn] at hpq
        exact absurd hpq.symm (Nat.ne_of_lt hqless)
    · obtain ⟨rfl, hqconn⟩ | ⟨hqlt, hqtcp, hqconn, _⟩ := h.accept_conn hnew q hq hqtcp
      · rw [hpconn, hqconn] at hpq
        exact absurd hpq (Nat.ne_of_lt hpless)
      · exact h.conn_inj p q hplt hqlt hptcp hqtcp (hpconn.symm.trans (hpq.trans hqconn))
  tpcb_lt b z hb := by
    obtain ⟨rfl, rfl⟩ | ⟨_, hb⟩ := update_cases hb
    · rw [hnew.callback.1]
      exact Nat.lt_succ_self _
    · exact Nat.lt_succ_of_lt (h.tpcb_lt b z hb)
  loopOk := trivial

end

end Table

end LwipCs
