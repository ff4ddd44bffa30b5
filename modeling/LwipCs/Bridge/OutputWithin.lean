import LwipCs.Bridge.Landed
import LwipCs.Bridge.ReadBound
import LwipCs.Bridge.TcpWrite

/-!
# The bytes of a closed connection on their way out

After `err` is set nothing more is handed to the C layer for a PCB, but lwIP may still ask
for what is left in `es->p`. Whatever happens, the bytes given to `tcp_write` are the first
ones of the buffers of the Writes that took `lck`.
-/

namespace LwipCs

open Interleave

/-- What `tcp_write` took for the PCB, and what is left in its object, come first in what its
Writes carry. -/
structure Within (p nextPcb : PcbId) (pcbs : PcbId → PCB) (heap : Ptr → Option RawState)
    (trace : List Event) : Prop where
  wrote : Made nextPcb pcbs .tcp p →
    written (pcbs p).conn trace <+: carried (select (Event.lockedOn p) trace)
  left : Made nextPcb pcbs .tcp p → ∀ es, heap (pcbs p).state = some es →
    es.conn = (pcbs p).conn →
      written (pcbs p).conn trace ++ chainBytes es.p <+: carried (select (Event.lockedOn p) trace)

/-- `Within` of a state of the system. -/
abbrev Sys.InWithin (s : Sys) (p : PcbId) : Prop := Within p s.nextPcb s.pcbs s.heap s.trace

/-- For the connection `k` with its object at `e`, bytes only go from the object to
`tcp_write`. -/
structure Flushes (k : ConnId) (e : Ptr) (heap heap' : Ptr → Option RawState)
    (trace trace' : List Event) : Prop where
  left : ∀ es', heap' e = some es' → es'.conn = k → ∃ es, heap e = some es ∧ es.conn = k ∧
    written k trace' ++ chainBytes es'.p = written k trace ++ chainBytes es.p
  wrote : written k trace' = written k trace ∨ ∃ es', heap' e = some es' ∧ es'.conn = k

namespace Flushes

variable {k : ConnId} {e f : Ptr} {heap heap' : Ptr → Option RawState}
variable {trace trace' : List Event} {ev : Event} {es : RawState}

theorem refl : Flushes k e heap heap trace trace :=
  ⟨fun es' hes' hk => ⟨es', hes', hk, rfl⟩, Or.inl rfl⟩

theorem emit (h : Flushes k e heap heap' trace trace') (hev : ev.wroteTo k = none := by rfl) :
    Flushes k e heap heap' trace (trace' ++ [ev]) := by
  have hsame : written k (trace' ++ [ev]) = written k trace' := by
    rw [written_snoc, hev, Option.toList_none, List.flatten_nil, List.append_nil]
  refine ⟨?_, ?_⟩
  · rw [hsame]
    exact h.left
  · rw [hsame]
    exact h.wrote

/-- `if Event != nil { Event.… }` -/
theorem notify (event : Bool) (h : Flushes k e heap heap' trace trace')
    (hev : ev.wroteTo k = none := by rfl) :
    Flushes k e heap heap' trace (trace' ++ if event then [ev] else []) :=
  snoc_if (P := Flushes k e heap heap' trace) event h (h.emit hev)

/-- The event comes first. -/
theorem cons (h : Flushes k e heap heap' (trace ++ [ev]) trace')
    (hev : ev.wroteTo k = none := by rfl) : Flushes k e heap heap' trace trace' := by
  have hsame : written k (trace ++ [ev]) = written k trace := by
    rw [written_snoc, hev, Option.toList_none, List.flatten_nil, List.append_nil]
  refine ⟨?_, ?_⟩
  · rw [← hsame]
    exact h.left
  · rw [← hsame]
    exact h.wrote

/-- An object is made for another connection, released, or changes fields other than its
bytes. -/
theorem setHeap {state : Option RawState}
    (hstate : ∀ es' ∈ state, es'.conn = k → ∃ es, heap f = some es ∧ es.conn = k ∧
      es'.p = es.p) :
    Flushes k e heap (Function.update heap f state) trace trace := by
  refine ⟨?_, Or.inl rfl⟩
  intro es' hes' hk
  by_cases hef : e = f
  · subst hef
    rw [Function.update_self] at hes'
    obtain ⟨es, hes, hconn, hp⟩ := hstate es' hes' hk
    exact ⟨es, hes, hconn, by rw [hp]⟩
  · rw [Function.update_of_ne hef] at hes'
    exact ⟨es', hes', hk, rfl⟩

/-- `cs_tcp_raw_send` on an object. -/
theorem transfer {a : Ptr} {n : Nat} {bytes : Bytes} {chain : List Pbuf}
    (hes : heap f = some es) (howner : es.conn = k → f = e)
    (hbytes : bytes ++ chainBytes chain = chainBytes es.p) :
    Flushes k e heap (Function.update heap f (some { es with p := chain })) trace
      (trace ++ [.lwip es.conn a (.rawSend n bytes)]) := by
  by_cases hk : es.conn = k
  · obtain rfl := howner hk
    have hwritten : written k (trace ++ [.lwip es.conn a (.rawSend n bytes)]) =
        written k trace ++ bytes := by
      rw [written_snoc, Event.wroteTo, if_pos hk]
      simp
    refine ⟨?_, Or.inr ⟨_, Function.update_self .., hk⟩⟩
    intro es' hes' _
    rw [Function.update_self] at hes'
    cases hes'
    exact ⟨es, hes, hk, by rw [hwritten, List.append_assoc, hbytes]⟩
  · have hquiet : (Event.lwip es.conn a (.rawSend n bytes)).wroteTo k = none := if_neg hk
    refine Flushes.emit (setHeap ?_) hquiet
    rintro _ ⟨⟩ hconn
    exact absurd hconn hk

end Flushes

variable {cfg : Config} {s t : Sys} {o : Outcomes} {p : PcbId} {a : Act}

/-- The object under an entry is the object of its PCB. -/
theorem Sys.InTable.entry_owner (h : s.InTable) {e : Ptr} {q : PcbId} {es : RawState}
    (hp : Made s.nextPcb s.pcbs .tcp p) (hq : s.tcpPcbs e = some q) (hes : s.heap e = some es)
    (hconn : es.conn = (s.pcbs p).conn) : e = (s.pcbs p).state := by
  obtain ⟨hlt, htype, hstate⟩ := h.known e q hq
  obtain ⟨es', hes', hqconn, _⟩ := h.entry e q hq
  rw [hes] at hes'
  cases hes'
  have hqp := h.conn_inj q p hlt hp.1 htype hp.2 (hqconn.symm.trans hconn)
  rw [← hstate, hqp]

/-- A goroutine hands lwIP nothing. -/
theorem LoopKept.flushes (h : LoopKept Event.ofGoroutine s t) {k : ConnId} {e : Ptr} :
    Flushes k e s.heap t.heap s.trace t.trace := by
  rw [h.heap]
  refine h.trace.ind .refl fun tr ev hev hs => ?_
  cases ev <;> first | contradiction | exact hs.emit

theorem LoopStep.flushes {pc : LoopPc} (hpc : s.loop = pc) (h : LoopStep cfg s o pc t)
    (hs : s.InOrder) (hp : Made s.nextPcb s.pcbs .tcp p) (herr : (t.pcbs p).err = true) :
    Flushes (s.pcbs p).conn (s.pcbs p).state s.heap t.heap s.trace t.trace := by
  have hknown : pc.Ok s.nextPcb s.pcbs := hpc ▸ hs.known.loop
  cases h with
  | credit _ => exact .emit .refl
  | dropped _ => exact .emit .refl
  | passed _ _ => exact .emit .refl
  | sendFailed _ _ _ _ _ => exact .emit .refl
  | @sendTcp q w es run hopen htype _ hes _ _ _ =>
      have hconn := hs.table.owns ⟨hknown, htype⟩ hopen (by rw [hpc]; rfl) hes
      by_cases hq : q = p
      · subst hq
        have hsame : (Function.update s.pcbs q
            { s.pcbs q with sendCount := (s.pcbs q).sendCount + 1 } q).err = true := herr
        rw [Function.update_self] at hsame
        exact absurd (hopen.symm.trans hsame) nofun
      · -- the connection of another PCB
        have hne : es.conn ≠ (s.pcbs p).conn := by
          intro hsame
          exact hq (hs.table.conn_inj q p hknown hp.1 htype hp.2 (hconn.symm.trans hsame))
        refine .emit (.emit (.setHeap ?_) (if_neg hne))
        rintro _ ⟨⟩ hsame
        exact absurd hsame hne
  | sendUdp _ _ _ => exact .emit (.emit .refl)
  | sendUdpFailed _ _ _ => exact .emit .refl
  | netif => exact .emit .refl
  | push _ => exact .emit (.emit .refl)
  | pushUdp _ => exact .emit (.emit .refl)
  | close h => exact h.loopKept.widen.flushes
  | closed => exact .emit (.emit (.notify cfg.event (.setHeap nofun)))
  | _ => exact .refl

theorem CallbackStep.flushes {cb : Callback} (h : CallbackStep cfg s o cb t) (hs : s.InOrder)
    (hsingle : ∀ e es, s.heap e = some es → Single es.p) (hp : Made s.nextPcb s.pcbs .tcp p) :
    Flushes (s.pcbs p).conn (s.pcbs p).state s.heap t.heap s.trace t.trace := by
  have kept : ∀ {e es} {x : RawState}, s.heap e = some es → x.conn = es.conn → x.p = es.p →
      Flushes (s.pcbs p).conn (s.pcbs p).state s.heap (Function.update s.heap e (some x)) s.trace
        s.trace := by
    intro e es x hes hconn hchain
    refine .setHeap ?_
    rintro _ ⟨⟩ hk
    exact ⟨es, hes, hconn.symm.trans hk, hchain⟩
  have resumed : ∀ {q a e es} {run : SendRun}, s.tcpPcbs e = some q → s.heap e = some es →
      csTcpRawSend cfg.lwip es.p o.sndbuf o.writes = run → ∀ {trace},
      Flushes (s.pcbs p).conn (s.pcbs p).state s.heap
        (Function.update s.heap e (some { es with p := run.p })) trace
        (trace ++ [.lwip es.conn a (.rawSend run.attempts run.wrote.flatten)]) := by
    intro q a e es run hq hes hrun trace
    subst hrun
    exact .transfer hes (hs.table.entry_owner hp hq hes)
      (csTcpRawSend_bytes (hsingle e es hes) _ _)
  cases h with
  | accept _ he =>
      refine .emit (.notify cfg.event (.emit (.setHeap ?_)))
      rintro _ ⟨⟩ hk
      have hlt := hs.table.conn_lt p hp.1 hp.2
      exact absurd hk.symm (Nat.ne_of_lt hlt)
  | recvClosed _ _ _ hes _ _ => exact .emit (.emit (.emit (kept hes rfl rfl)))
  | recvEmpty _ _ _ hes _ _ => exact .emit (.emit (kept hes rfl rfl))
  | recv _ _ _ hes _ _ _ => exact .emit (.emit (kept hes rfl rfl))
  | fin _ _ _ hes _ => exact .emit (.emit (kept hes rfl rfl))
  | err _ _ _ _ _ => exact .emit (.emit (.emit .refl))
  | sentMore _ _ hq hes _ _ hrun => exact .cons (resumed hq hes hrun)
  | sentIdle _ _ _ _ _ _ _ => exact .emit .refl
  | sent _ _ _ _ _ _ _ _ => exact .emit .refl
  | pollMore _ _ hq hes _ _ hrun => exact resumed hq hes hrun
  | udpNew _ _ => exact .notify cfg.event .refl
  | _ => exact .refl

theorem Step.flushes (h : Step cfg s a t) (hs : s.InOrder)
    (hsingle : ∀ e es, s.heap e = some es → Single es.p) (hp : Made s.nextPcb s.pcbs .tcp p)
    (herr : (t.pcbs p).err = true) :
    Flushes (s.pcbs p).conn (s.pcbs p).state s.heap t.heap s.trace t.trace := by
  by_cases ha : a.ofGoroutine = true
  · exact (h.loopKept ha).flushes
  cases h with
  | frame _ => exact .emit .refl
  | takeClose _ _ _ => exact .emit .refl
  | takeCloseUdp _ _ _ => exact .emit .refl
  | loop hpc h => exact h.flushes hpc hs hp herr
  | callback _ h => exact h.flushes hs hsingle hp
  | _ => first | exact absurd rfl ha | exact .refl

/-- A PCB is made open. -/
theorem Step.made_of_err (h : Step cfg s a t) (hp : Made t.nextPcb t.pcbs .tcp p)
    (herr : (t.pcbs p).err = true) : Made s.nextPcb s.pcbs .tcp p := by
  have hlt : p < s.nextPcb := by
    rcases h.pcbsKept with ⟨_, hnext⟩ | ⟨_, hpcbs, hnext⟩
    · exact hnext ▸ hp.1
    · have hlt := hp.1
      rw [hnext] at hlt
      refine Nat.lt_of_le_of_ne (Nat.le_of_lt_succ hlt) ?_
      rintro rfl
      rw [hpcbs, Function.update_self] at herr
      cases herr
  have hflow := h.flow_eq hlt
  refine ⟨hlt, ?_⟩
  rw [← hflow]
  exact hp.2

theorem select_isPrefix {α : Type} {f : Event → Option α} {trace trace' : List Event}
    (h : trace <+: trace') :
    select f trace <+: select f trace' := by
  obtain ⟨more, rfl⟩ := h
  rw [select, select, List.filterMap_append]
  exact List.prefix_append _ _

theorem carried_isPrefix {writes writes' : List (WriteId × Bytes)} (h : writes <+: writes') :
    carried writes <+: carried writes' := by
  obtain ⟨more, rfl⟩ := h
  rw [carried_append]
  exact List.prefix_append _ _

/-- Of an open PCB all bytes are accounted for. -/
theorem Sys.OutputReady.within (hready : s.OutputReady) (hs : s.InOutput p)
    (hopen : OpenTcp s.nextPcb s.pcbs p) : s.InWithin p := by
  obtain ⟨es, hes, hconn⟩ := hready.order.table.object hopen
  obtain ⟨rest, _, hall⟩ := hs.bytes hopen es hes hconn
  refine ⟨fun _ => ?_, fun _ fs hfs _ => ?_⟩
  · rw [← hall, List.append_assoc]
    exact List.prefix_append _ _
  · rw [hes] at hfs
    cases hfs
    rw [← hall]
    exact List.prefix_append _ _

theorem Step.inWithin (h : Step cfg s a t) (hready : s.OutputReady) (hready' : t.OutputReady)
    (hout : s.InOutput p) (hout' : t.InOutput p) (hs : s.InWithin p) : t.InWithin p := by
  by_cases hopen : OpenTcp t.nextPcb t.pcbs p
  · exact hready'.within hout' hopen
  · have key : Made t.nextPcb t.pcbs .tcp p → Made s.nextPcb s.pcbs .tcp p ∧
        (t.pcbs p).toFlow = (s.pcbs p).toFlow ∧
        Flushes (s.pcbs p).conn (s.pcbs p).state s.heap t.heap s.trace t.trace := by
      intro hp
      have herr : (t.pcbs p).err = true := by
        by_contra hne
        exact hopen ⟨hp, by simpa using hne⟩
      have hmade := h.made_of_err hp herr
      exact ⟨hmade, h.flow_eq hmade.1, h.flushes hready.order hout.single hmade herr⟩
    have hgrows : carried (select (Event.lockedOn p) s.trace) <+:
        carried (select (Event.lockedOn p) t.trace) :=
      carried_isPrefix (select_isPrefix h.trace_extends)
    have left : Made t.nextPcb t.pcbs .tcp p → ∀ es, t.heap (t.pcbs p).state = some es →
        es.conn = (t.pcbs p).conn → written (t.pcbs p).conn t.trace ++ chainBytes es.p <+:
          carried (select (Event.lockedOn p) t.trace) := by
      intro hp es hes hconn
      obtain ⟨hmade, hflow, hflushes⟩ := key hp
      rw [hflow] at hes hconn ⊢
      obtain ⟨es', hes', hconn', hbytes⟩ := hflushes.left es hes hconn
      rw [hbytes]
      exact (hs.left hmade es' hes' hconn').trans hgrows
    refine ⟨?_, left⟩
    intro hp
    obtain ⟨hmade, hflow, hflushes⟩ := key hp
    obtain hsame | ⟨es, hes, hconn⟩ := hflushes.wrote
    · rw [hflow, hsame]
      exact (hs.wrote hmade).trans hgrows
    · refine (List.prefix_append _ (chainBytes es.p)).trans (left hp es ?_ ?_)
      · rwa [hflow]
      · rwa [hflow]

/-- In a run in which `pbuf_alloc` succeeds for `p`, what was given to `tcp_write` for it comes
first in what its Writes carry. -/
theorem run_inWithin {tr : List (Sys × Act)} (hrun : (bridge cfg).Run tr s)
    (hok : Machine.Meets (AllocOk p) tr) : s.InWithin p := by
  have hall : s.InOutput p ∧ s.InWithin p := by
    refine hrun.invariant_under (I := fun s => s.InOutput p ∧ s.InWithin p) hok
      reachable_outputReady ⟨run_inOutput .start (Machine.meets_nil _), ?_⟩ ?_
    · exact ⟨fun hp => absurd hp.1 (Nat.not_lt_zero p), fun hp => absurd hp.1 (Nat.not_lt_zero p)⟩
    · rintro s a t hready hready' ⟨hout, hs⟩ hok hstep
      have hcases := step_cases hready.order hstep
      have hout' := hcases.inOutput hok hready hout
      exact ⟨hout', hcases.inWithin hready hready' hout hout' hs⟩
  exact hall.2

end LwipCs
