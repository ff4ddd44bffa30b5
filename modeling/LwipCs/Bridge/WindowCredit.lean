import LwipCs.Bridge.Accounted
import LwipCs.Bridge.Landed
import LwipCs.Bridge.PcbUse
import LwipCs.Bridge.ReadBound

/-!
# Where credits arrive

A credit reaches lwIP through the raw pointer its PCB keeps. The loop hands it on only
while `err` is not set, and every path that releases the pcb of a connection sets `err`
of its PCB before, but one: `tcp_close` for an entry of `closeQueue` is called on
whatever pcb lives at that address by then. Where no such call hits the pcb of an open
PCB, each credit finds the pcb of its own connection.
-/

namespace LwipCs

open Interleave

/-- The credit that the step hands to `tcp_recved`. -/
def Sys.creditStep (s : Sys) : Act → Option RecvedEntry
  | .loop _ =>
      match s.loop with
      | .credit r => if (s.pcbs r.pcb).err then none else some r
      | _ => none
  | _ => none

/-- The bytes the step credits to the live `tcp_pcb` of the connection `k`. -/
def Sys.slotCredit (k : ConnId) (s : Sys) (a : Act) : Nat :=
  match s.creditStep a with
  | some r =>
      if (s.tpcbs (s.pcbs r.pcb).pcb).map TcpPcb.conn = some k then u16 r.len else 0
  | none => 0

/-- The bytes passed to `tcp_recved` for the `tcp_pcb` of the connection `k`, whosever
credits they were. -/
def slotCredited (k : ConnId) (tr : List (Sys × Act)) : Nat :=
  (tr.map fun x => x.1.slotCredit k x.2).sum

/-- A credit applied whole, before `go_tcp_close_h` has run for its connection, and to
the pcb of that connection. -/
structure Sys.CreditOk (s : Sys) (r : RecvedEntry) : Prop where
  whole : u16 r.len = r.len
  before : .rawClosed (s.pcbs r.pcb).conn ∉ s.trace
  slot : ∃ x, s.tpcbs (s.pcbs r.pcb).pcb = some x ∧ x.conn = (s.pcbs r.pcb).conn

/-- No connection is credited more than the Reads of its PCB returned, and that is no more
than was delivered on it; every credit is applied whole, in time, and to its own pcb. -/
structure CreditSafe (tr : List (Sys × Act)) (s : Sys) : Prop where
  total : ∀ k, k < s.nextConn → ∃ p, Made s.nextPcb s.pcbs .tcp p ∧ (s.pcbs p).conn = k ∧
    slotCredited k tr ≤ returned p s.trace ∧ returned p s.trace ≤ deliveredBytes k s.trace
  credit : ∀ x ∈ tr, ∀ r, x.1.creditStep x.2 = some r → x.1.CreditOk r

/-- A live pcb at the address of an entry taken from `closeQueue` is that of a connection
whose PCB has `err` set, as the PCB of the entry has. -/
def CloseOwn (s : Sys) : Act → Prop
  | .take .close _ => ∀ c rest x, s.closeQueue.buf = c :: rest → (s.pcbs c).type = .tcp →
      s.tpcbs (s.pcbs c).pcb = some x →
        ∀ q, Made s.nextPcb s.pcbs .tcp q → (s.pcbs q).conn = x.conn → (s.pcbs q).err = true
  | _ => True

/-- A registered PCB whose `err` is not set has a live pcb that nobody has closed. -/
def OpenEntries (pcbs : PcbId → PCB) (tcpPcbs : Ptr → Option PcbId)
    (tpcbs : Ptr → Option TcpPcb) : Prop :=
  ∀ e p, tcpPcbs e = some p → (pcbs p).err = false →
    ∃ x, tpcbs (pcbs p).pcb = some x ∧ x.conn = (pcbs p).conn ∧ x.closing = false

/-- `OpenEntries` of a state of the system. -/
abbrev Sys.InOpen (s : Sys) : Prop := OpenEntries s.pcbs s.tcpPcbs s.tpcbs

section

variable {nextPcb : PcbId} {pcbs : PcbId → PCB} {tcpPcbs : Ptr → Option PcbId}
variable {heap : Ptr → Option RawState} {tpcbs : Ptr → Option TcpPcb} {nextConn : ConnId}
variable {loop : LoopPc}

namespace OpenEntries

theorem setPcbs (h : OpenEntries pcbs tcpPcbs tpcbs) {pcbs' : PcbId → PCB}
    (hkept : PcbsKept pcbs pcbs') : OpenEntries pcbs' tcpPcbs tpcbs := by
  intro e q hq hopen
  rw [hkept.flow]
  exact h e q hq (hkept.isOpen q hopen)

/-- lwIP's data of a pcb changes, but neither its connection nor that it is open. -/
theorem setTpcb (h : OpenEntries pcbs tcpPcbs tpcbs) {a : Ptr} {y : Option TcpPcb}
    (hy : ∀ x, tpcbs a = some x → ∃ y', y = some y' ∧ y'.conn = x.conn ∧ y'.closing = x.closing) :
    OpenEntries pcbs tcpPcbs (Function.update tpcbs a y) := by
  intro e p hp hopen
  obtain ⟨x, hx, hconn, hclosing⟩ := h e p hp hopen
  by_cases hpa : (pcbs p).pcb = a
  · obtain ⟨y', rfl, hsame, hsame'⟩ := hy x (hpa ▸ hx)
    rw [hpa, Function.update_self]
    exact ⟨y', rfl, hsame.trans hconn, hsame'.trans hclosing⟩
  · rw [Function.update_of_ne hpa]
    exact ⟨x, hx, hconn, hclosing⟩

/-- What happens to a pcb that is not the open one of an open entry. -/
theorem elsewhere (h : OpenEntries pcbs tcpPcbs tpcbs) {a : Ptr} {y : Option TcpPcb}
    (hother : ∀ e p x, tcpPcbs e = some p → (pcbs p).err = false → (pcbs p).pcb = a →
      tpcbs a = some x → x.conn = (pcbs p).conn → x.closing = true) :
    OpenEntries pcbs tcpPcbs (Function.update tpcbs a y) := by
  intro e p hp hopen
  obtain ⟨x, hx, hconn, hclosing⟩ := h e p hp hopen
  have hne : (pcbs p).pcb ≠ a := by
    rintro rfl
    rw [hother e p x hp hopen rfl hx hconn] at hclosing
    cases hclosing
  rw [Function.update_of_ne hne]
  exact ⟨x, hx, hconn, hclosing⟩

theorem newPcb (h : OpenEntries pcbs tcpPcbs tpcbs) {x : PCB}
    (hknown : ∀ e p, tcpPcbs e = some p → p < nextPcb) :
    OpenEntries (Function.update pcbs nextPcb x) tcpPcbs tpcbs := by
  intro e p hp
  rw [Function.update_of_ne (Nat.ne_of_lt (hknown e p hp))]
  exact h e p hp

/-- lwIP accepts a connection with a new pcb. -/
theorem enter (h : OpenEntries pcbs tcpPcbs tpcbs) {a e : Ptr} {x : PCB} {y : TcpPcb}
    (hknown : ∀ e p, tcpPcbs e = some p → p < nextPcb) (ha : tpcbs a = none) (hpcb : x.pcb = a)
    (hconn : y.conn = x.conn) (hclosing : y.closing = false) :
    OpenEntries (Function.update pcbs nextPcb x) (Function.update tcpPcbs e (some nextPcb))
      (Function.update tpcbs a (some y)) := by
  intro f q hq hopen
  by_cases hfe : f = e
  · subst hfe
    rw [Function.update_self] at hq
    cases hq
    rw [Function.update_self, hpcb, Function.update_self]
    exact ⟨y, rfl, hconn, hclosing⟩
  · rw [Function.update_of_ne hfe] at hq
    have hne := Nat.ne_of_lt (hknown f q hq)
    rw [Function.update_of_ne hne] at hopen
    obtain ⟨z, hz, hrest⟩ := h f q hq hopen
    have hqa : (pcbs q).pcb ≠ a := by
      intro hqa
      rw [hqa, ha] at hz
      cases hz
    rw [Function.update_of_ne hne, Function.update_of_ne hqa]
    exact ⟨z, hz, hrest⟩

/-- The entry of a connection goes, and so may its pcb. -/
theorem leave (h : OpenEntries pcbs tcpPcbs tpcbs)
    (htable : Table nextPcb pcbs tcpPcbs heap tpcbs nextConn loop) {a e : Ptr} {p : PcbId}
    {x : TcpPcb} {y : Option TcpPcb} (hp : tcpPcbs e = some p) (ha : tpcbs a = some x)
    (hconn : x.conn = (pcbs p).conn) :
    OpenEntries pcbs (Function.update tcpPcbs e none) (Function.update tpcbs a y) := by
  have kept : ∀ {f q}, Function.update tcpPcbs e none f = some q → f ≠ e ∧ tcpPcbs f = some q := by
    intro f q hq
    by_cases hfe : f = e
    · subst hfe
      rw [Function.update_self] at hq
      cases hq
    · rw [Function.update_of_ne hfe] at hq
      exact ⟨hfe, hq⟩
  have hremoved : OpenEntries pcbs (Function.update tcpPcbs e none) tpcbs :=
    fun f q hq hopen => h f q (kept hq).2 hopen
  refine hremoved.elsewhere ?_
  intro f q z hq _ _ hz hqconn
  obtain ⟨hne, hq⟩ := kept hq
  rw [ha] at hz
  cases hz
  exact absurd (htable.other_entry hp hq (hqconn.symm.trans hconn)) hne

end OpenEntries

end

variable {cfg : Config} {s t : Sys} {o : Outcomes}

theorem LoopKept.inOpen {kind : Event → Bool} (h : LoopKept kind s t) (hs : s.InOpen) :
    t.InOpen := by
  rw [Sys.InOpen, h.tcpPcbs, h.tpcbs]
  exact hs.setPcbs h.pcbs

theorem LoopStep.inOpen {pc : LoopPc} (hpc : s.loop = pc) (h : LoopStep cfg s o pc t)
    (hs : s.InOpen) (harmed : s.InArmed) : t.InOpen := by
  cases h with
  | sendFailed _ _ _ _ _ => exact hs.setPcbs .set
  | @sendTcp p w es run _ _ _ _ _ _ _ =>
      have hsent : OpenEntries s.pcbs s.tcpPcbs (Function.update s.tpcbs (s.pcbs p).pcb _) :=
        hs.setTpcb (y := (s.tpcbs (s.pcbs p).pcb).map fun x =>
            { x with unacked := x.unacked + run.wrote.flatten.length }) (by
          intro x hx
          rw [hx]
          exact ⟨_, rfl, rfl, rfl⟩)
      exact hsent.setPcbs .set
  | done _ => exact hs.setPcbs .set
  | close hclose => exact hclose.loopKept.inOpen hs
  | @closed p a e k =>
      have hreleased : OpenEntries s.pcbs s.tcpPcbs (Function.update s.tpcbs a _) :=
        hs.elsewhere (y := (s.tpcbs a).bind fun x =>
            if o.frees then none else some { x with closing := true }) (by
          intro f q x hq _ hqa hx hconn
          have harg := harmed.entry f q x hq (hqa.symm ▸ hx) hconn
          rw [harmed.closing p .unlock a e k x hpc hx] at harg
          cases harg)
      exact hreleased.setPcbs .set
  | _ => exact hs

theorem CallbackStep.inOpen {cb : Callback} (h : CallbackStep cfg s o cb t) (hs : s.InOpen)
    (hin : s.InTable) : t.InOpen := by
  have acked : ∀ {a x n}, s.tpcbs a = some x →
      OpenEntries s.pcbs s.tcpPcbs (Function.update s.tpcbs a (some { x with unacked := n })) := by
    intro a x n ha
    refine hs.setTpcb ?_
    intro x' hx
    rw [ha] at hx
    cases hx
    exact ⟨_, rfl, rfl, rfl⟩
  have known : ∀ e p, s.tcpPcbs e = some p → p < s.nextPcb := fun e p hp => (hin.known e p hp).1
  cases h with
  | accept ha _ => exact hs.enter known ha rfl rfl rfl
  | fin ha harg hp _ _ => exact hs.leave hin hp ha (hin.callback_conn ha harg hp)
  | err ha harg hp _ _ => exact hs.leave hin hp ha (hin.callback_conn ha harg hp)
  | sentMore ha _ _ _ _ _ _ => exact acked ha
  | sentIdle ha _ _ _ _ _ _ => exact acked ha
  | sent ha _ _ _ _ _ _ _ => exact (acked ha).setPcbs .set
  | pollMore ha _ _ _ _ _ _ => exact acked ha
  | udpNew _ _ => exact hs.newPcb known
  | _ => exact hs

theorem Step.inOpen {a : Act} (h : Step cfg s a t) (hs : s.InOpen) (harmed : s.InArmed)
    (hin : s.InOrder) (hown : CloseOwn s a) : t.InOpen := by
  by_cases hgo : a.ofGoroutine = true
  · exact (h.loopKept hgo).inOpen hs
  cases h with
  | @takeClose o c q _ hrecv htype =>
      refine hs.elsewhere ?_
      intro e p x hp hopen _ hx hconn
      obtain ⟨hlt, hptype, _⟩ := hin.table.known e p hp
      have herr := hown c q.buf x (Chan.recv_some hrecv).1 htype hx p ⟨hlt, hptype⟩ hconn.symm
      rw [hopen] at herr
      cases herr
  | loop hpc h => exact h.inOpen hpc hs harmed
  | callback _ h => exact h.inOpen hs hin.table
  | release _ ha hclosing =>
      refine hs.elsewhere ?_
      intro e p x hp _ _ hx _
      obtain rfl := Option.some.inj (ha.symm.trans hx)
      exact hclosing
  | _ => first | exact absurd rfl hgo | exact hs

/-- What is known before each step of a run without such a call. -/
structure Sys.CreditReady (s : Sys) : Prop where
  order : s.InOrder
  ended : s.Ended
  short : s.InShort
  entries : s.InOpen

theorem run_inOpen {tr : List (Sys × Act)} (hrun : (bridge cfg).Run tr s)
    (hown : Machine.Meets CloseOwn tr) : s.InOpen := by
  refine hrun.invariant_under (I := Sys.InOpen) (J := fun s => s.InOrder ∧ s.InArmed) hown
    (fun h => ⟨reachable_inOrder h, reachable_armed h⟩) nofun ?_
  intro s a t hs _ hopen hok hstep
  exact (step_cases hs.1 hstep).inOpen hopen hs.2 hs.1 hok

theorem creditStep_some {a : Act} {r : RecvedEntry} (h : s.creditStep a = some r) :
    ∃ o, a = .loop o ∧ s.loop = .credit r ∧ (s.pcbs r.pcb).err = false := by
  cases a with
  | loop o =>
      simp only [Sys.creditStep] at h
      split at h
      · rename_i r' hloop
        split at h
        · cases h
        · rename_i herr
          cases h
          exact ⟨o, rfl, hloop, by simpa using herr⟩
      · cases h
  | _ => cases h

/-- A PCB without `err` is registered while the loop stands before `tcp_recved`, so the
pcb is the one its connection has. -/
theorem Sys.CreditReady.creditOk (h : s.CreditReady) {a : Act} {r : RecvedEntry}
    (hr : s.creditStep a = some r) : s.CreditOk r := by
  obtain ⟨o, rfl, hloop, herr⟩ := creditStep_some hr
  have hmade : Made s.nextPcb s.pcbs .tcp r.pcb := by
    have hok := h.order.known.loop
    rwa [hloop] at hok
  have hin := h.order.table.entered hmade herr (by rw [hloop]; rfl)
  have hlen := (h.short.entries r (by simp [hloop, LoopPc.crediting])).2
  refine ⟨u16_of_lt hlen, h.ended.entered h.order.table hin, ?_⟩
  obtain ⟨x, hx, hconn, _⟩ := h.entries _ r.pcb hin herr
  exact ⟨x, hx, hconn⟩

theorem credited_mono {k : ConnId} {trace trace' : List Event} (h : trace <+: trace') :
    credited k trace ≤ credited k trace' := by
  obtain ⟨rest, rfl⟩ := h
  simp only [credited, List.filterMap_append, List.sum_append]
  exact Nat.le_add_right _ _

/-- What a step credits to the slot of a connection it credits for that connection. -/
theorem Sys.CreditReady.slotCredit_le {a : Act} {k : ConnId} (h : s.CreditReady)
    (hstep : step cfg s a = some t) :
    credited k s.trace + s.slotCredit k a ≤ credited k t.trace := by
  cases hr : s.creditStep a with
  | none =>
      simp only [Sys.slotCredit, hr, Nat.add_zero]
      exact credited_mono (step_cases h.order hstep).trace_extends
  | some r =>
      obtain ⟨x, hx, hconn⟩ := (h.creditOk hr).slot
      obtain ⟨o, rfl, hloop, herr⟩ := creditStep_some hr
      have hloopStep := loopStep_of_step hstep
      have htrace : t.trace =
          s.trace ++ [.lwip (s.pcbs r.pcb).conn (s.pcbs r.pcb).pcb (.recved (u16 r.len))] := by
        simp only [Sys.loopStep, hloop, herr] at hloopStep
        cases hloopStep
        rfl
      simp only [Sys.slotCredit, hr, hx, Option.map_some, hconn, htrace, credited_snoc,
        Event.creditTo, Option.some.injEq]
      by_cases hk : (s.pcbs r.pcb).conn = k <;> simp [hk]

theorem run_creditReady {tr : List (Sys × Act)} (hrun : (bridge cfg).Run tr s)
    (hok : Machine.Meets (fun s a => ShortPbufs s a ∧ CloseOwn s a) tr) : s.CreditReady :=
  ⟨reachable_inOrder hrun.reachable, reachable_ended hrun.reachable,
    run_short hrun (hok.mono fun _ _ h => h.1), run_inOpen hrun (hok.mono fun _ _ h => h.2)⟩

theorem slotCredited_le {tr : List (Sys × Act)} {k : ConnId} (hrun : (bridge cfg).Run tr s)
    (hok : Machine.Meets (fun s a => ShortPbufs s a ∧ CloseOwn s a) tr) :
    slotCredited k tr ≤ credited k s.trace := by
  induction hrun with
  | start => exact Nat.le_refl _
  | @step tr s t a hrun hstep ih =>
      obtain ⟨hfront, _⟩ := Machine.meets_snoc.mp hok
      have hone := (run_creditReady hrun hfront).slotCredit_le (k := k) hstep
      have hsum : slotCredited k (tr ++ [(s, a)]) = slotCredited k tr + s.slotCredit k a := by
        simp [slotCredited]
      have hfirst := ih hfront
      omega

/-- Every connection accepted has a PCB. -/
abbrev Sys.Connected (s : Sys) : Prop :=
  ∀ k, k < s.nextConn → ∃ p, Made s.nextPcb s.pcbs .tcp p ∧ (s.pcbs p).conn = k

theorem Step.connected {a : Act} (h : Step cfg s a t) (hs : s.Connected) : t.Connected := by
  have known : ∀ k, k < s.nextConn →
      ∃ p, Made t.nextPcb t.pcbs .tcp p ∧ (t.pcbs p).conn = k := by
    intro k hk
    obtain ⟨p, ⟨hlt, htype⟩, hconn⟩ := hs k hk
    have hflow := h.flow_eq hlt
    exact ⟨p, ⟨Nat.lt_of_lt_of_le hlt h.nextPcb_le, (congrArg Flow.type hflow).trans htype⟩,
      (congrArg Flow.conn hflow).trans hconn⟩
  have hnew : t.nextConn = s.nextConn ∨ (t.nextConn = s.nextConn + 1 ∧
      Made t.nextPcb t.pcbs .tcp s.nextPcb ∧ (t.pcbs s.nextPcb).conn = s.nextConn) := by
    cases h with
    | read _ h => cases h <;> exact Or.inl rfl
    | write _ h => cases h <;> exact Or.inl rfl
    | close _ h => cases h <;> exact Or.inl rfl
    | intercept _ h => cases h <;> exact Or.inl rfl
    | loop _ h =>
        cases h with
        | close h => cases h <;> exact Or.inl rfl
        | _ => exact Or.inl rfl
    | callback _ h =>
        cases h with
        | accept _ _ =>
            refine Or.inr ⟨rfl, ⟨Nat.lt_succ_self _, ?_⟩, ?_⟩ <;>
              simp only [Function.update_self] <;> rfl
        | _ => exact Or.inl rfl
    | _ => exact Or.inl rfl
  intro k hk
  rcases hnew with hsame | ⟨hnext, hmade, hconn⟩
  · exact known k (hsame ▸ hk)
  · rcases Nat.lt_or_eq_of_le (Nat.le_of_lt_succ (hnext ▸ hk)) with hlt | rfl
    · exact known k hlt
    · exact ⟨s.nextPcb, hmade, hconn⟩

theorem reachable_connected (h : (bridge cfg).Reachable s) : s.Connected := by
  refine h.invariant_of (I := Sys.Connected) reachable_inOrder
    (fun k hk => absurd hk (Nat.not_lt_zero k)) ?_
  intro s a t hin _ hs hstep
  exact (step_cases hin hstep).connected hs

/-- Credits are safe in every run without `Intercept` in which `tcp_close` for an entry of
`closeQueue` never hits the pcb of an open PCB. -/
theorem run_creditSafe {tr : List (Sys × Act)} (hrun : (bridge cfg).Run tr s)
    (hno : Machine.Meets NoIntercept tr) (hshort : Machine.Meets ShortPbufs tr)
    (hown : Machine.Meets CloseOwn tr) : CreditSafe tr s := by
  have hok : Machine.Meets (fun s a => ShortPbufs s a ∧ CloseOwn s a) tr :=
    fun x hx => ⟨hshort x hx, hown x hx⟩
  refine ⟨?_, ?_⟩
  · intro k hk
    obtain ⟨p, hp, rfl⟩ := reachable_connected hrun.reachable k hk
    have hslot := slotCredited_le (k := (s.pcbs p).conn) hrun hok
    have hbalance := (run_ledger hrun hshort).balance hp
    exact ⟨p, hp, rfl, by omega, returned_le_delivered hrun hno hp⟩
  · intro x hx r hr
    have hready := (hrun.always hok run_creditReady).1 x hx
    exact hready.creditOk hr

/-! ### Runs -/

namespace Schedule

/-- No `Intercept`, and pbufs no longer than a `u16_t` says. -/
def short (a : Act) : Bool :=
  !a.intercepts && match a with
    | .callback cb _ => (cb.payload.getD []).length < 2 ^ 16
    | _ => true

/-- The peer closes the first connection, lwIP releases its pcb and accepts a second
connection with one at the same address; a byte of it is read, and then the PCB of the
first is closed. -/
def closeLate : List Act :=
  accept ++ fin ++ [.release 1] ++
    [.callback (.accept (some 1) .ok (some 4) ⟨.v4 0, 80⟩ ⟨.v4 0, 4001⟩) fine,
      .callback (.recv 1 (some [9]) .ok) fine, .loop fine, .loop fine, .loop fine,
      .call 0 (.read 1 1518)] ++ List.replicate 5 (.go 0) ++
    .call 0 (.close 0) :: List.replicate 4 (.go 0)

/-- The loop closes the pcb for the entry of the first PCB, a third connection gets its
address, and the loop turns to the credit of the second. -/
def creditLate : List Act :=
  closeLate ++ .take .close { fine with frees := true } :: enterLwip ++
    [.callback (.accept (some 1) .ok (some 6) ⟨.v4 0, 80⟩ ⟨.v4 0, 4002⟩) fine, .loop fine,
      .take .recved fine]

theorem short_meets {tr : List (Sys × Act)}
    (h : Machine.Meets (fun _ a => short a = true) tr) :
    Machine.Meets NoIntercept tr ∧ Machine.Meets ShortPbufs tr := by
  constructor
  · refine h.mono ?_
    intro s a ha
    simp only [short, Bool.and_eq_true, Bool.not_eq_true'] at ha
    exact ha.1
  · refine h.mono ?_
    intro s a ha
    cases a with
    | callback cb o => exact Callback.short (by simpa [short, Act.intercepts] using ha)
    | _ => trivial

end Schedule

/-- A byte is read and credited. -/
theorem run_creditSafe_read : ∃ tr s, (bridge Schedule.config).Run tr s ∧ CreditSafe tr s ∧
    returned 0 s.trace = 1 ∧ credited (s.pcbs 0).conn s.trace = 1 := by
  obtain ⟨tr, s, hrun, hmeets, htest⟩ := Machine.exists_run_of_exec (bridge Schedule.config)
    (fun _ a => Schedule.short a && match a with
      | .take .close _ => false
      | _ => true)
    (Schedule.receive ++ [.loop Schedule.fine, .call 0 (.read 0 1518)] ++
      List.replicate 5 (.go 0) ++ [.take .recved Schedule.fine, .loop Schedule.fine])
    (fun s => returned 0 s.trace = 1 ∧ credited (s.pcbs 0).conn s.trace = 1) (by decide)
  obtain ⟨hreturned, hcredited⟩ := of_decide_eq_true htest
  obtain ⟨hno, hshort⟩ := Schedule.short_meets
    (hmeets.mono fun _ _ h => (Bool.and_eq_true_iff.mp h).1)
  have hown : Machine.Meets CloseOwn tr := by
    refine hmeets.mono ?_
    intro s a ha
    cases a with
    | take source o =>
        cases source with
        | close => cases (Bool.and_eq_true_iff.mp ha).2
        | _ => trivial
    | _ => trivial
  exact ⟨tr, s, hrun, run_creditSafe hrun hno hshort hown, hreturned, hcredited⟩

/-- A credit of the second connection reaches the pcb of the third, on which nothing was
read. -/
theorem not_creditSafe_late : ∃ tr s, (bridge Schedule.config).Run tr s ∧
    Machine.Meets NoIntercept tr ∧ Machine.Meets ShortPbufs tr ∧
      returned 2 s.trace < slotCredited (s.pcbs 2).conn tr ∧ ¬CreditSafe tr s := by
  obtain ⟨tr, s, hrun, hmeets, htest⟩ := Machine.exists_run_of_exec (bridge Schedule.config)
    (fun _ a => Schedule.short a) Schedule.creditLate
    (fun s => s.slotCredit 2 (.loop Schedule.fine) = 1 ∧
      ((step Schedule.config s (.loop Schedule.fine)).any fun t => decide
        ((t.pcbs 2).conn = 2 ∧ 2 < t.nextConn ∧ 2 < t.nextPcb ∧ (t.pcbs 2).type = .tcp ∧
          returned 2 t.trace = 0)) = true) (by decide)
  obtain ⟨hcredit, hnext⟩ := of_decide_eq_true htest
  obtain ⟨t, hstep, htest⟩ : ∃ t, step Schedule.config s (.loop Schedule.fine) = some t ∧ _ :=
    (Option.any_eq_true ..).mp hnext
  obtain ⟨hconn, hknown, hlt, htype, hreturned⟩ := of_decide_eq_true htest
  have hrun' : (bridge Schedule.config).Run (tr ++ [(s, .loop Schedule.fine)]) t :=
    hrun.step hstep
  have hall : Machine.Meets (fun _ a => Schedule.short a = true)
      (tr ++ [(s, .loop Schedule.fine)]) := Machine.meets_snoc.mpr ⟨hmeets, rfl⟩
  obtain ⟨hno, hshort⟩ := Schedule.short_meets hall
  have hslot : returned 2 t.trace <
      slotCredited (t.pcbs 2).conn (tr ++ [(s, .loop Schedule.fine)]) := by
    simp only [slotCredited, hconn, hreturned, List.map_append, List.sum_append, List.map_cons,
      List.map_nil, List.sum_singleton, hcredit]
    exact Nat.succ_pos _
  refine ⟨_, t, hrun', hno, hshort, hslot, ?_⟩
  intro hsafe
  obtain ⟨p, hp, hsame, hle, _⟩ := hsafe.total 2 hknown
  have hin := reachable_inOrder hrun'.reachable
  obtain rfl := hin.table.conn_inj p 2 hp.1 hlt hp.2 htype (hsame.trans hconn.symm)
  rw [hconn] at hslot
  exact absurd hle (Nat.not_le.mpr hslot)

end LwipCs
