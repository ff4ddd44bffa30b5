import LwipCs.Bridge.Queued

/-!
# Delivered and queued

While a PCB is open and nobody calls `Close` on it, every chunk lwIP delivers on its
connection is queued in turn. Afterwards chunks may be refused, but none is queued.
-/

namespace LwipCs

open Interleave

/-- The chunks lwIP delivered on the connection `k`. -/
def Event.deliveredTo (k : ConnId) : Event → Option Bytes
  | .delivered j data => if j = k then some data else none
  | _ => none

/-- What was delivered is queued or about to be, until `err` is set or the process
ends. -/
structure Arrivals (p : PcbId) (nextPcb : PcbId) (pcbs : PcbId → PCB) (nextConn : ConnId)
    (pushing : List Bytes) (trace : List Event) (panic : Option Panic) : Prop where
  fresh : ∀ k data, .delivered k data ∈ trace → k < nextConn
  unmade : nextPcb ≤ p → select (Event.queuedOn p) trace = [] ∧ pushing = []
  erred : Made nextPcb pcbs .tcp p → (pcbs p).err = true → pushing = []
  whole : Made nextPcb pcbs .tcp p → (pcbs p).err = false → panic = none →
    select (Event.deliveredTo (pcbs p).conn) trace = select (Event.queuedOn p) trace ++ pushing
  within : Made nextPcb pcbs .tcp p →
    select (Event.queuedOn p) trace ++ pushing <+: select (Event.deliveredTo (pcbs p).conn) trace

/-- `Arrivals` of a state of the system. -/
abbrev Sys.InArrivals (s : Sys) (p : PcbId) : Prop :=
  Arrivals p s.nextPcb s.pcbs s.nextConn (s.loop.pushing p) s.trace s.panic

/-- An event that delivers or queues a chunk. -/
def Event.ofArrivals : Event → Bool
  | .delivered .. | .queued .. => true
  | _ => false

namespace Arrivals

variable {p nextPcb : PcbId} {pcbs : PcbId → PCB} {nextConn : ConnId}
variable {pushing pushing' : List Bytes} {trace : List Event} {panic : Option Panic} {ev : Event}

theorem emit (h : Arrivals p nextPcb pcbs nextConn pushing trace panic)
    (hev : ev.ofArrivals = false := by rfl) :
    Arrivals p nextPcb pcbs nextConn pushing (trace ++ [ev]) panic := by
  have hnone : ev.queuedOn p = none ∧ ∀ k, ev.deliveredTo k = none := by
    cases ev with
    | delivered => cases hev
    | queued => cases hev
    | _ => exact ⟨rfl, fun _ => rfl⟩
  have hq : select (Event.queuedOn p) (trace ++ [ev]) = select (Event.queuedOn p) trace := by
    rw [select_snoc, hnone.1, Option.toList_none, List.append_nil]
  have hd : ∀ k, select (Event.deliveredTo k) (trace ++ [ev]) =
      select (Event.deliveredTo k) trace := by
    intro k
    rw [select_snoc, hnone.2 k, Option.toList_none, List.append_nil]
  refine ⟨?_, ?_, h.erred, ?_, ?_⟩
  · intro k data hk
    rcases List.mem_append.mp hk with hk | hk
    · exact h.fresh k data hk
    · rw [← List.mem_singleton.mp hk] at hev
      cases hev
  · rw [hq]
    exact h.unmade
  · rw [hq, hd]
    exact h.whole
  · rw [hq, hd]
    exact h.within

/-- `if Event != nil { Event.… }` -/
theorem notify (event : Bool) (h : Arrivals p nextPcb pcbs nextConn pushing trace panic)
    (hev : ev.ofArrivals = false := by rfl) :
    Arrivals p nextPcb pcbs nextConn pushing (trace ++ if event then [ev] else []) panic :=
  snoc_if (P := fun tr => Arrivals p nextPcb pcbs nextConn pushing tr panic) event h (h.emit hev)

theorem crash (h : Arrivals p nextPcb pcbs nextConn pushing trace panic) {why : Panic} :
    Arrivals p nextPcb pcbs nextConn pushing trace (some why) :=
  { h with whole := nofun }

/-- PCBs change; `err` of `p` may be set while no chunk is about to be queued on it. -/
theorem setPcbs (h : Arrivals p nextPcb pcbs nextConn pushing trace panic)
    {pcbs' : PcbId → PCB} (hkept : PcbsKept pcbs pcbs')
    (hset : (pcbs' p).err = true → (pcbs p).err = true ∨ pushing = []) :
    Arrivals p nextPcb pcbs' nextConn pushing trace panic := by
  refine ⟨h.fresh, h.unmade, ?_, ?_, ?_⟩
  · rw [Made, hkept.flow]
    intro hmade hx
    rcases hset hx with hold | hnone
    · exact h.erred hmade hold
    · exact hnone
  · rw [Made, hkept.flow]
    exact fun hmade hopen => h.whole hmade (hkept.isOpen p hopen)
  · rw [Made, hkept.flow]
    exact h.within

/-- The loop changes a PCB, but not its `err`. -/
theorem setPcb (h : Arrivals p nextPcb pcbs nextConn pushing trace panic) {q : PcbId} {x : PCB}
    (hflow : x.toFlow = (pcbs q).toFlow := by rfl) (herr : x.err = (pcbs q).err := by rfl) :
    Arrivals p nextPcb (Function.update pcbs q x) nextConn pushing trace panic :=
  h.setPcbs (.set hflow herr.symm.trans) fun hx =>
    Or.inl ((update_field PCB.err herr p).symm.trans hx)

/-- A PCB just made; for a TCP PCB the connection is new, too. -/
theorem newPcb (h : Arrivals p nextPcb pcbs nextConn pushing trace panic) {x : PCB}
    {conns : ConnId} (hconn : x.type = .tcp → x.conn = nextConn)
    (hconns : nextConn ≤ conns) :
    Arrivals p (nextPcb + 1) (Function.update pcbs nextPcb x) conns pushing trace panic := by
  have fresh : ∀ k data, .delivered k data ∈ trace → k < conns :=
    fun k data hk => Nat.lt_of_lt_of_le (h.fresh k data hk) hconns
  by_cases hp : p = nextPcb
  · subst hp
    obtain ⟨hqueued, hpushing⟩ := h.unmade (Nat.le_refl _)
    have hnone : x.type = .tcp → select (Event.deliveredTo x.conn) trace = [] := by
      intro htype
      rw [hconn htype]
      refine List.filterMap_eq_nil_iff.mpr ?_
      intro ev hev
      cases ev with
      | delivered k data => exact if_neg (Nat.ne_of_lt (h.fresh k data hev))
      | _ => rfl
    refine ⟨fresh, fun _ => ⟨hqueued, hpushing⟩, fun _ _ => hpushing, ?_, ?_⟩
    · rintro ⟨_, htype⟩ _ _
      rw [Function.update_self] at htype ⊢
      rw [hnone htype, hqueued, hpushing]
      rfl
    · rintro ⟨_, htype⟩
      rw [Function.update_self] at htype ⊢
      rw [hqueued, hpushing]
      exact List.nil_prefix
  · have hsame : Function.update pcbs nextPcb x p = pcbs p := Function.update_of_ne hp ..
    have hmade : ∀ {type}, Made (nextPcb + 1) (Function.update pcbs nextPcb x) type p →
        Made nextPcb pcbs type p := by
      rintro type ⟨hlt, htype⟩
      rw [hsame] at htype
      exact ⟨Nat.lt_of_le_of_ne (Nat.le_of_lt_succ hlt) hp, htype⟩
    refine ⟨fresh, fun hlt => h.unmade (Nat.le_of_succ_le hlt), ?_, ?_, ?_⟩
    · rw [hsame]
      exact fun hp => h.erred (hmade hp)
    · rw [hsame]
      exact fun hp => h.whole (hmade hp)
    · rw [hsame]
      exact fun hp => h.within (hmade hp)

section

variable {q : PcbId} {data : Bytes}

/-- The chunks delivered to `p` after one more for `q`. -/
theorem select_delivered (hinj : (pcbs p).conn = (pcbs q).conn → q = p) :
    select (Event.deliveredTo (pcbs p).conn) (trace ++ [.delivered (pcbs q).conn data]) =
      select (Event.deliveredTo (pcbs p).conn) trace ++ if q = p then [data] else [] := by
  rw [select_snoc]
  by_cases hq : q = p
  · subst hq
    rw [Event.deliveredTo, if_pos rfl, if_pos rfl]
    rfl
  · have hne : (pcbs q).conn ≠ (pcbs p).conn := fun hsame => hq (hinj hsame.symm)
    rw [Event.deliveredTo, if_neg hne, if_neg hq]
    rfl

theorem fresh_snoc (h : Arrivals p nextPcb pcbs nextConn pushing trace panic)
    (hlt : (pcbs q).conn < nextConn) (k : ConnId) (x : Bytes)
    (hk : .delivered k x ∈ trace ++ [.delivered (pcbs q).conn data]) : k < nextConn := by
  rcases List.mem_append.mp hk with hk | hk
  · exact h.fresh k x hk
  · cases List.mem_singleton.mp hk
    exact hlt

/-- A chunk is delivered to the handler of an open PCB. -/
theorem deliver (h : Arrivals p nextPcb pcbs nextConn [] trace panic)
    (hmade : Made nextPcb pcbs .tcp q) (hlt : (pcbs q).conn < nextConn)
    (hinj : Made nextPcb pcbs .tcp p → (pcbs p).conn = (pcbs q).conn → q = p)
    (hopen : (pcbs q).err = false) (hpanic : panic = none) :
    Arrivals p nextPcb pcbs nextConn (if q = p then [data] else [])
      (trace ++ [.delivered (pcbs q).conn data]) panic := by
  have hq : select (Event.queuedOn p) (trace ++ [.delivered (pcbs q).conn data]) =
      select (Event.queuedOn p) trace := by
    rw [select_snoc]
    exact List.append_nil _
  refine ⟨h.fresh_snoc hlt, ?_, ?_, ?_, ?_⟩
  · intro hp
    have hne : q ≠ p := Nat.ne_of_lt (Nat.lt_of_lt_of_le hmade.1 hp)
    rw [hq, if_neg hne]
    exact h.unmade hp
  · intro _ herr
    refine if_neg ?_
    rintro rfl
    rw [hopen] at herr
    cases herr
  · intro hp herr hpanic
    rw [select_delivered (hinj hp), h.whole hp herr hpanic, hq, List.append_nil]
  · intro hp
    rw [select_delivered (hinj hp), hq]
    by_cases hqp : q = p
    · subst hqp
      have hwhole := h.whole hp hopen hpanic
      simp only [hwhole, List.append_nil, List.prefix_rfl]
    · simpa [hqp] using h.within hp

/-- A chunk is delivered and refused, because the PCB is closed or the process ends. -/
theorem refuse (h : Arrivals p nextPcb pcbs nextConn [] trace panic) {panic' : Option Panic}
    (hlt : (pcbs q).conn < nextConn)
    (hinj : Made nextPcb pcbs .tcp p → (pcbs p).conn = (pcbs q).conn → q = p)
    (hpanic : panic' = none → panic = none ∧ (pcbs q).err = true) :
    Arrivals p nextPcb pcbs nextConn [] (trace ++ [.delivered (pcbs q).conn data]) panic' := by
  have hq : select (Event.queuedOn p) (trace ++ [.delivered (pcbs q).conn data]) =
      select (Event.queuedOn p) trace := by
    rw [select_snoc]
    exact List.append_nil _
  refine ⟨h.fresh_snoc hlt, ?_, fun _ _ => rfl, ?_, ?_⟩
  · rw [hq]
    exact h.unmade
  · intro hp herr hnone
    have hne : q ≠ p := by
      rintro rfl
      rw [(hpanic hnone).2] at herr
      cases herr
    rw [select_delivered (hinj hp), if_neg hne, List.append_nil, hq]
    exact h.whole hp herr (hpanic hnone).1
  · intro hp
    rw [select_delivered (hinj hp), hq]
    exact (h.within hp).trans (List.prefix_append _ _)

/-- The handler of `q` queues its chunk. -/
theorem queue {ctx : PushCtx} {target : Option RecvChan}
    (h : Arrivals p nextPcb pcbs nextConn (LoopPc.pushing p (.push q data ctx target)) trace
      panic) :
    Arrivals p nextPcb pcbs nextConn [] (trace ++ [.queued q data]) panic := by
  have hq : select (Event.queuedOn p) (trace ++ [.queued q data]) =
      select (Event.queuedOn p) trace ++ LoopPc.pushing p (.push q data ctx target) := by
    rw [select_snoc, Event.queuedOn, LoopPc.pushing]
    split <;> rfl
  have hd : ∀ k, select (Event.deliveredTo k) (trace ++ [.queued q data]) =
      select (Event.deliveredTo k) trace := by
    intro k
    rw [select_snoc]
    exact List.append_nil _
  refine ⟨?_, ?_, fun _ _ => rfl, ?_, ?_⟩
  · intro k x hk
    exact h.fresh k x (by simpa using hk)
  · intro hp
    rw [hq, (h.unmade hp).1, (h.unmade hp).2]
    exact ⟨rfl, rfl⟩
  · intro hp herr hpanic
    rw [hq, hd, List.append_nil]
    exact h.whole hp herr hpanic
  · intro hp
    rw [hq, hd, List.append_nil]
    exact h.within hp

/-- A datagram is about to be queued on a UDP PCB. -/
theorem datagram (h : Arrivals p nextPcb pcbs nextConn [] trace panic)
    (hq : Made nextPcb pcbs .udp q) :
    Arrivals p nextPcb pcbs nextConn (if q = p then [data] else []) trace panic := by
  by_cases hqp : q = p
  · subst hqp
    have hudp : ¬Made nextPcb pcbs .tcp q := by
      rintro ⟨_, htype⟩
      rw [hq.2] at htype
      cases htype
    refine ⟨h.fresh, ?_, ?_, ?_, ?_⟩
    · exact fun hle => absurd hq.1 (Nat.not_lt.mpr hle)
    · exact fun hp => absurd hp hudp
    · exact fun hp => absurd hp hudp
    · exact fun hp => absurd hp hudp
  · rwa [if_neg hqp]

end

end Arrivals

variable {cfg : Config} {s t : Sys} {o : Outcomes} {p : PcbId} {r : Tid}

/-- A method, if `err` of `p` is set while no chunk is about to be queued on it only. -/
theorem LoopKept.inArrivals (h : LoopKept Event.ofGoroutine s t) (hs : s.InArrivals p)
    (hpanic : s.panic = none)
    (hset : (t.pcbs p).err = true → (s.pcbs p).err = true ∨ s.loop.pushing p = []) :
    t.InArrivals p := by
  rw [Sys.InArrivals, h.nextPcb, h.nextConn, h.loop]
  have hold : Arrivals p s.nextPcb s.pcbs s.nextConn (s.loop.pushing p) s.trace t.panic :=
    { hs with whole := fun hmade hopen _ => hs.whole hmade hopen hpanic }
  refine Arrivals.setPcbs ?_ h.pcbs hset
  refine h.trace.ind (P := fun tr => Arrivals p s.nextPcb s.pcbs s.nextConn _ tr t.panic) hold
    fun tr ev hev hold => ?_
  cases ev <;> first | contradiction | exact hold.emit

theorem LoopStep.inArrivals {pc : LoopPc} (hpc : s.loop = pc) (h : LoopStep cfg s o pc t)
    (hpanic : s.panic = none) (hs : s.InArrivals p) : t.InArrivals p := by
  have hs' : Arrivals p s.nextPcb s.pcbs s.nextConn (pc.pushing p) s.trace s.panic := hpc ▸ hs
  cases h with
  | creditClosed _ => exact hs'
  | credit _ => exact hs'.emit
  | dropped _ => exact hs'.emit
  | passed _ _ => exact hs'.emit
  | sendEmpty _ => exact hs.crash
  | udpSendEmpty _ => exact hs.crash
  | sendFailed _ _ _ _ _ => exact .emit hs'.setPcb
  | sendTcp _ _ _ _ _ _ _ => exact .emit (.emit hs'.setPcb)
  | sendUdp _ _ _ => exact .emit hs'.emit
  | sendUdpFailed _ _ _ => exact hs'.emit
  | post _ => exact hs'
  | netif => exact hs'.emit
  | netifNone => exact hs'
  | leave => exact hs'
  | target => exact hs'
  | pushClosed _ => exact hs.crash
  | push _ => exact .emit hs'.queue
  | pushUdp _ => exact .emit hs'.queue
  | doneClosed _ => exact hs.crash
  | done _ => exact hs'.setPcb
  | @close q pc pc' a e k s' hclose =>
      have hclosed := hclose.loopKept.widen.inArrivals hs hpanic fun _ => Or.inr (by rw [hpc]; rfl)
      rw [Sys.InArrivals, hclose.loopKept.loop, hpc] at hclosed
      exact hclosed
  | closed => exact .emit (.emit (.notify cfg.event hs'.setPcb))

theorem CallbackStep.inArrivals {cb : Callback} (hloop : s.loop = .lwip)
    (h : CallbackStep cfg s o cb t) (hpanic : s.panic = none) (htable : s.InTable)
    (hknown : s.InUse) (hs : s.InArrivals p) : t.InArrivals p := by
  have hs' : Arrivals p s.nextPcb s.pcbs s.nextConn [] s.trace s.panic := by
    have := hs
    rwa [Sys.InArrivals, hloop] at this
  have entered : ∀ {e q es}, s.tcpPcbs e = some q → s.heap e = some es →
      Made s.nextPcb s.pcbs .tcp q ∧ (s.pcbs q).conn = es.conn ∧ (s.pcbs q).conn < s.nextConn ∧
        (Made s.nextPcb s.pcbs .tcp p → (s.pcbs p).conn = (s.pcbs q).conn → q = p) := by
    intro e q es hq hes
    obtain ⟨hlt, htype, _⟩ := htable.known e q hq
    obtain ⟨es', hes', hconn, _⟩ := htable.entry e q hq
    rw [hes] at hes'
    cases hes'
    refine ⟨⟨hlt, htype⟩, hconn.symm, htable.conn_lt q hlt htype, ?_⟩
    intro hp hsame
    exact (htable.conn_inj p q hp.1 hlt hp.2 htype hsame).symm
  cases h with
  | ignored => exact hs
  | accept _ _ =>
      exact .emit (.notify cfg.event (.newPcb hs.emit (fun _ => rfl) (Nat.le_succ _)))
  | assertion => exact hs.crash
  | recvClosed _ _ hq hes _ herr =>
      obtain ⟨_, hconn, hlt, hinj⟩ := entered hq hes
      rw [← hconn]
      exact .emit (.emit (hs'.refuse hlt hinj fun h => ⟨h, herr⟩))
  | recvEmpty _ _ hq hes _ _ =>
      obtain ⟨_, hconn, hlt, hinj⟩ := entered hq hes
      rw [← hconn]
      simp only [Sys.InArrivals, hloop]
      exact .emit (hs'.refuse hlt hinj nofun)
  | recv _ _ hq hes _ herr _ =>
      obtain ⟨hmade, hconn, hlt, hinj⟩ := entered hq hes
      rw [← hconn]
      exact .emit (hs'.deliver hmade hlt hinj herr hpanic)
  | fin _ _ _ _ _ => exact .emit hs'.emit
  | err _ _ _ _ _ => exact .emit (.emit hs'.emit)
  | sentMore _ _ _ _ _ _ _ => exact .emit hs'.emit
  | sentIdle _ _ _ _ _ _ _ => exact hs'.emit
  | sent _ _ _ _ _ _ _ _ => exact .emit hs'.setPcb
  | pollMore _ _ _ _ _ _ _ => exact hs'.emit
  | udpEmpty => exact hs.crash
  | @udpKnown src dst q data hq _ => exact hs'.datagram (hknown.udp _ q hq)
  | @udpNew src dst data _ _ =>
      have hnew : Arrivals p (s.nextPcb + 1) (Function.update s.pcbs s.nextPcb
          (newPCB s.nextPcb ⟨.udp, 0, 0, dst.ip, dst.port, src.ip, src.port, 0⟩)) s.nextConn []
          s.trace s.panic := hs'.newPcb nofun (Nat.le_refl _)
      refine .notify cfg.event (hnew.datagram ⟨Nat.lt_succ_self _, ?_⟩)
      rw [Function.update_self]
      rfl

theorem Step.inArrivals {a : Act} (h : Step cfg s a t) (hpanic : s.panic = none)
    (htable : s.InTable) (hknown : s.InUse) (halone : s.ReadAlone p r) (hs : s.InArrivals p) :
    t.InArrivals p := by
  have select : ∀ {pc : LoopPc}, s.loop = .select → pc.pushing p = [] →
      Arrivals p s.nextPcb s.pcbs s.nextConn (pc.pushing p) s.trace s.panic := by
    intro pc hloop hpc
    have := hs
    rw [Sys.InArrivals, hloop] at this
    rwa [hpc]
  by_cases ha : a.ofGoroutine = true
  · refine (h.loopKept ha).inArrivals hs hpanic fun herr => Or.inl ?_
    refine (h.err_of herr).resolve_right ?_
    -- no goroutine closes `p`
    rintro (⟨th, rfl, hth⟩ | ⟨_, _, _, _, rfl, _⟩)
    · have hother := halone.threads th
      rw [hth] at hother
      exact hother rfl
    · cases ha
  cases h with
  | frame _ => exact hs.emit
  | takeRecved hloop _ => exact select hloop rfl
  | takeClose _ _ _ => exact hs.emit
  | takeCloseUdp _ _ _ => exact hs.emit
  | takeSend hloop _ => exact select hloop rfl
  | takeInput hloop _ => exact select hloop rfl
  | loop hpc h => exact h.inArrivals hpc hpanic hs
  | callback hloop h => exact h.inArrivals hloop hpanic htable hknown hs
  | _ => first | exact absurd rfl ha | exact hs

theorem run_inArrivals {tr : List (Sys × Act)} (hrun : (bridge cfg).Run tr s)
    (hby : Machine.Meets (ReadBy p r) tr) : s.InArrivals p := by
  have hboth : s.ReadAlone p r ∧ s.InArrivals p := by
    refine hrun.invariant_under (I := fun s => s.ReadAlone p r ∧ s.InArrivals p) hby
      reachable_inOrder ⟨run_readAlone .start (Machine.meets_nil _), ?_⟩ ?_
    · refine ⟨nofun, fun _ => ⟨rfl, rfl⟩, fun _ _ => rfl, fun _ _ _ => rfl, ?_⟩
      exact fun _ => List.prefix_rfl
    · rintro s a t hs _ ⟨halone, harrivals⟩ hby hstep
      have hcases := step_cases hs hstep
      exact ⟨hcases.readAlone halone hby,
        hcases.inArrivals (step_running hstep) hs.table hs.known halone harrivals⟩
  exact hboth.2

end LwipCs
