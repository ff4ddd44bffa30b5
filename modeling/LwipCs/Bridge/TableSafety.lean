import LwipCs.Bridge.InOrder

/-!
# What the connection table guarantees

Over a whole run every accepted connection has one PCB, every callback of a
connection is dispatched to that PCB, `OnAccept` is called for it once and before
its data is queued, and `OnClose` at most once and after its last chunk.
-/

namespace LwipCs

open Interleave

/-- A PCB that `go_tcp_close_h` has closed. -/
structure Gone (nextPcb : PcbId) (pcbs : PcbId → PCB) (tcpPcbs : Ptr → Option PcbId)
    (loop : LoopPc) (p : PcbId) : Prop where
  made : Made nextPcb pcbs .tcp p
  removed : tcpPcbs (pcbs p).state ≠ some p
  notClosing : ∀ e, loop.closing ≠ some (p, e)

/-- The trace so far agrees with the table. -/
structure Log (cfg : Config) (nextPcb : PcbId) (pcbs : PcbId → PCB)
    (tcpPcbs : Ptr → Option PcbId) (loop : LoopPc) (trace : List Event) : Prop where
  accepted : ∀ k, .accepted k ∈ trace → ∃ p, Made nextPcb pcbs .tcp p ∧ (pcbs p).conn = k
  rejected : ∀ k, .rejected k ∉ trace
  dispatched : ∀ k p, .dispatched k p ∈ trace → p < nextPcb ∧ (pcbs p).conn = k
  onAccept : ∀ p, trace.count (.onAccept p) = if cfg.event ∧ p < nextPcb then 1 else 0
  onClose : ∀ p, trace.count (.onClose p) ≤ 1
  gone : ∀ p, .onClose p ∈ trace → Gone nextPcb pcbs tcpPcbs loop p
  acceptFirst : Each (fun before ev => ∀ p data, ev = .queued p data → cfg.event = true →
    .onAccept p ∈ before) trace
  closeLast : Each (fun before ev => ∀ p data, ev = .queued p data → .onClose p ∉ before) trace

/-- `Log` of a state of the system. -/
abbrev Sys.Logged (cfg : Config) (s : Sys) : Prop :=
  Log cfg s.nextPcb s.pcbs s.tcpPcbs s.loop s.trace

section

variable {cfg : Config} {nextPcb : PcbId} {pcbs : PcbId → PCB} {tcpPcbs : Ptr → Option PcbId}
variable {loop : LoopPc} {trace : List Event} {ev x : Event}

theorem count_emit (hne : x ≠ ev) : (trace ++ [ev]).count x = trace.count x := by
  rw [List.count_append, List.count_singleton, if_neg (by simpa using hne.symm), Nat.add_zero]

namespace Gone

theorem setPcbs {p : PcbId} (h : Gone nextPcb pcbs tcpPcbs loop p) {pcbs' : PcbId → PCB}
    (hkept : PcbsKept pcbs pcbs') : Gone nextPcb pcbs' tcpPcbs loop p := by
  refine ⟨⟨h.made.1, ?_⟩, ?_, h.notClosing⟩
  · rw [hkept.flow]
    exact h.made.2
  · rw [hkept.flow]
    exact h.removed

end Gone

namespace Log

/-- One more event other than a call of `Event`. -/
theorem emit (h : Log cfg nextPcb pcbs tcpPcbs loop trace)
    (haccepted : ∀ k, ev = .accepted k → ∃ p, Made nextPcb pcbs .tcp p ∧ (pcbs p).conn = k := by
      nofun)
    (hdispatched : ∀ k p, ev = .dispatched k p → p < nextPcb ∧ (pcbs p).conn = k := by nofun)
    (hqueued : ∀ p data, ev = .queued p data →
      p < nextPcb ∧ ¬Gone nextPcb pcbs tcpPcbs loop p := by nofun)
    (hrejected : ∀ k, ev ≠ .rejected k := by nofun)
    (haccept : ∀ p, ev ≠ .onAccept p := by nofun) (hclose : ∀ p, ev ≠ .onClose p := by nofun) :
    Log cfg nextPcb pcbs tcpPcbs loop (trace ++ [ev]) := by
  constructor
  · intro k hk
    rcases List.mem_append.mp hk with hk | hk
    · exact h.accepted k hk
    · exact haccepted k (List.mem_singleton.mp hk).symm
  · intro k hk
    rcases List.mem_append.mp hk with hk | hk
    · exact h.rejected k hk
    · exact hrejected k (List.mem_singleton.mp hk).symm
  · intro k p hk
    rcases List.mem_append.mp hk with hk | hk
    · exact h.dispatched k p hk
    · exact hdispatched k p (List.mem_singleton.mp hk).symm
  · intro p
    rw [count_emit (haccept p).symm]
    exact h.onAccept p
  · intro p
    rw [count_emit (hclose p).symm]
    exact h.onClose p
  · intro p hp
    rcases List.mem_append.mp hp with hp | hp
    · exact h.gone p hp
    · exact absurd (List.mem_singleton.mp hp).symm (hclose p)
  · refine each_snoc.mpr ⟨h.acceptFirst, ?_⟩
    intro p data hev hevent
    refine List.count_pos_iff.mp ?_
    rw [h.onAccept p, if_pos ⟨hevent, (hqueued p data hev).1⟩]
    exact Nat.one_pos
  · refine each_snoc.mpr ⟨h.closeLast, ?_⟩
    intro p data hev hclosed
    exact (hqueued p data hev).2 (h.gone p hclosed)

theorem setPcbs (h : Log cfg nextPcb pcbs tcpPcbs loop trace) {pcbs' : PcbId → PCB}
    (hkept : PcbsKept pcbs pcbs') : Log cfg nextPcb pcbs' tcpPcbs loop trace := by
  refine { h with accepted := ?_, dispatched := ?_, gone := ?_ }
  · simpa only [Made, hkept.flow] using h.accepted
  · simpa only [hkept.flow] using h.dispatched
  · intro q hq
    exact (h.gone q hq).setPcbs hkept

theorem goto (h : Log cfg nextPcb pcbs tcpPcbs loop trace) {pc : LoopPc}
    (hpc : pc.closing = none ∨ pc.closing = loop.closing := by exact Or.inl rfl) :
    Log cfg nextPcb pcbs tcpPcbs pc trace := by
  refine { h with gone := ?_ }
  intro p hp
  obtain ⟨hmade, hremoved, hnot⟩ := h.gone p hp
  refine ⟨hmade, hremoved, ?_⟩
  intro e
  rcases hpc with hpc | hpc <;> rw [hpc]
  · nofun
  · exact hnot e

/-- A PCB just made, for which `OnAccept` is called. -/
theorem newPcb (h : Log cfg nextPcb pcbs tcpPcbs loop trace) {flow : Flow} :
    Log cfg (nextPcb + 1) (Function.update pcbs nextPcb (newPCB nextPcb flow)) tcpPcbs loop
      (trace ++ if cfg.event then [.onAccept nextPcb] else []) := by
  have mem : ∀ {x : Event}, x ≠ .onAccept nextPcb →
      (x ∈ trace ++ (if cfg.event then [.onAccept nextPcb] else []) ↔ x ∈ trace) := by
    intro x hx
    cases cfg.event <;> simp [hx]
  have made : ∀ {q}, Made nextPcb pcbs .tcp q → Made (nextPcb + 1)
      (Function.update pcbs nextPcb (newPCB nextPcb flow)) .tcp q :=
    fun hq => hq.mono Extends.newPcb
  have old : ∀ {q}, q < nextPcb →
      Function.update pcbs nextPcb (newPCB nextPcb flow) q = pcbs q :=
    fun hq => Function.update_of_ne (Nat.ne_of_lt hq) ..
  constructor
  · intro k hk
    obtain ⟨q, hq, hconn⟩ := h.accepted k ((mem (by nofun)).mp hk)
    refine ⟨q, made hq, ?_⟩
    rw [old hq.1]
    exact hconn
  · intro k hk
    exact h.rejected k ((mem (by nofun)).mp hk)
  · intro k q hk
    obtain ⟨hq, hconn⟩ := h.dispatched k q ((mem (by nofun)).mp hk)
    rw [old hq]
    exact ⟨Nat.lt_succ_of_lt hq, hconn⟩
  · intro q
    have hcount := h.onAccept q
    rw [List.count_append, hcount]
    cases cfg.event with
    | false => simp
    | true =>
        simp only [true_and, if_true, List.count_singleton, beq_iff_eq, Event.onAccept.injEq]
        rcases Nat.lt_trichotomy q nextPcb with hq | rfl | hq
        · rw [if_pos hq, if_neg (Nat.ne_of_gt hq), if_pos (Nat.lt_succ_of_lt hq)]
        · rw [if_neg (Nat.lt_irrefl q), if_pos rfl, if_pos (Nat.lt_succ_self q)]
        · rw [if_neg (Nat.lt_asymm hq), if_neg (Nat.ne_of_lt hq), if_neg (Nat.not_lt_of_le hq)]
  · intro q
    have hclose : (if cfg.event then [Event.onAccept nextPcb] else []).count (.onClose q) = 0 := by
      cases cfg.event <;> rfl
    rw [List.count_append, hclose, Nat.add_zero]
    exact h.onClose q
  · intro q hq
    obtain ⟨hmade, hremoved, hnot⟩ := h.gone q ((mem (by nofun)).mp hq)
    refine ⟨made hmade, ?_, hnot⟩
    rw [old hmade.1]
    exact hremoved
  · have hfirst := h.acceptFirst
    cases hevent : cfg.event with
    | false => simpa only [hevent, Bool.false_eq_true, if_false, List.append_nil] using hfirst
    | true =>
        rw [hevent] at hfirst
        exact each_snoc.mpr ⟨hfirst, nofun⟩
  · cases cfg.event with
    | false => simpa using h.closeLast
    | true => exact each_snoc.mpr ⟨h.closeLast, nofun⟩

/-- `OnClose` is called for the PCB the loop has closed. -/
theorem close (h : Log cfg nextPcb pcbs tcpPcbs loop trace) {p : PcbId} {e : Ptr} {pc : LoopPc}
    (hclosing : loop.closing = some (p, e)) (hmade : Made nextPcb pcbs .tcp p)
    (hremoved : tcpPcbs (pcbs p).state ≠ some p) (hpc : pc.closing = none) :
    Log cfg nextPcb pcbs tcpPcbs pc (trace ++ if cfg.event then [.onClose p] else []) := by
  have hgone : Gone nextPcb pcbs tcpPcbs pc p := by
    refine ⟨hmade, hremoved, ?_⟩
    intro e'
    rw [hpc]
    nofun
  have hfirst : .onClose p ∉ trace := fun hp => (h.gone p hp).notClosing e hclosing
  have hgoto := h.goto (Or.inl hpc)
  cases hevent : cfg.event with
  | false =>
      simpa using hgoto
  | true =>
      constructor
      · intro k hk
        exact hgoto.accepted k (by simpa using hk)
      · intro k hk
        exact hgoto.rejected k (by simpa using hk)
      · intro k q hk
        exact hgoto.dispatched k q (by simpa using hk)
      · intro q
        rw [if_pos rfl, count_emit (by nofun)]
        exact hgoto.onAccept q
      · intro q
        by_cases hq : q = p
        · subst hq
          rw [if_pos rfl, List.count_append, List.count_eq_zero.mpr hfirst]
          simp
        · rw [if_pos rfl, count_emit (fun h => hq (Event.onClose.inj h))]
          exact hgoto.onClose q
      · intro q hq
        by_cases hqp : q = p
        · subst hqp
          exact hgone
        · exact hgoto.gone q (by simpa [hqp] using hq)
      · exact each_snoc.mpr ⟨hgoto.acceptFirst, nofun⟩
      · exact each_snoc.mpr ⟨hgoto.closeLast, nofun⟩

/-- An entry appears or disappears in the table. -/
theorem setTcp (h : Log cfg nextPcb pcbs tcpPcbs loop trace) {e : Ptr} {entry : Option PcbId}
    (hentry : ∀ p, entry = some p → ¬Gone nextPcb pcbs tcpPcbs loop p) :
    Log cfg nextPcb pcbs (Function.update tcpPcbs e entry) loop trace := by
  refine { h with gone := ?_ }
  intro p hp
  have hgone := h.gone p hp
  refine ⟨hgone.made, ?_, hgone.notClosing⟩
  by_cases he : (pcbs p).state = e
  · rw [he, Function.update_self]
    intro hentered
    exact hentry p hentered hgone
  · rw [Function.update_of_ne he]
    exact hgone.removed

/-- The loop begins to close a PCB that is not gone. -/
theorem closing (h : Log cfg nextPcb pcbs tcpPcbs loop trace) {pc : LoopPc} {p : PcbId} {e : Ptr}
    (hpc : pc.closing = some (p, e)) (hgone : ¬Gone nextPcb pcbs tcpPcbs loop p) :
    Log cfg nextPcb pcbs tcpPcbs pc trace := by
  refine { h with gone := ?_ }
  intro q hq
  have hq := h.gone q hq
  refine ⟨hq.made, hq.removed, ?_⟩
  intro e' hclosing
  rw [hpc] at hclosing
  cases hclosing
  exact hgone hq

end Log

/-- A PCB in the table is not gone. -/
theorem not_gone {e : Ptr} {p : PcbId} (hp : tcpPcbs e = some p) (he : (pcbs p).state = e) :
    ¬Gone nextPcb pcbs tcpPcbs loop p := by
  intro hgone
  exact hgone.removed (he ▸ hp)

end

variable {cfg : Config} {s t : Sys} {o : Outcomes}

theorem LoopKept.logged (h : LoopKept Event.ofGoroutine s t) (hs : s.Logged cfg) :
    t.Logged cfg := by
  rw [Sys.Logged, h.nextPcb, h.tcpPcbs, h.loop]
  refine Log.setPcbs (h.trace.ind hs fun tr ev hev hs => ?_) h.pcbs
  cases ev <;> first | contradiction | exact hs.emit

theorem LoopStep.logged {pc : LoopPc} (hpc : s.loop = pc) (h : LoopStep cfg s o pc t)
    (hs : s.Logged cfg) (hin : s.InOrder) : t.Logged cfg := by
  have hs' : Log cfg s.nextPcb s.pcbs s.tcpPcbs pc s.trace := hpc ▸ hs
  have hok : pc.Ok s.nextPcb s.pcbs := hpc ▸ hin.known.loop
  have hdispatched : LoopOk s.pcbs s.tcpPcbs pc := hpc ▸ hin.table.loopOk
  cases h with
  | creditClosed _ => exact hs'.goto
  | credit _ => exact .goto (.emit hs')
  | dropped _ => exact .goto (.emit hs')
  | passed _ _ => exact .goto (.emit hs')
  | sendEmpty _ => exact hs
  | udpSendEmpty _ => exact hs
  | sendFailed _ _ _ _ _ => exact .goto (.emit (hs'.setPcbs .set))
  | sendTcp _ _ _ _ _ _ _ => exact .goto (.emit (.emit (hs'.setPcbs .set)))
  | sendUdp _ _ _ => exact .goto (.emit (.emit hs'))
  | sendUdpFailed _ _ _ => exact .goto (.emit hs')
  | post _ => exact hs'.goto
  | netif => exact .goto (.emit hs')
  | netifNone => exact hs'.goto
  | leave => exact hs'.goto
  | target => exact hs'.goto
  | pushClosed _ => exact hs
  | @push p data k r ch hsend =>
      have hgone : ¬Gone s.nextPcb s.pcbs s.tcpPcbs (.push p data (.tcp k) (some r)) p :=
        not_gone hdispatched.1 rfl
      refine .goto (.emit (.emit hs' (by nofun) (by nofun) ?_))
      rintro _ _ ⟨⟩
      exact ⟨hok.1, hgone⟩
  | @pushUdp p data src dst old r ch hsend =>
      have hgone :
          ¬Gone s.nextPcb s.pcbs s.tcpPcbs (.push p data (.udp src dst old) (some r)) p := by
        intro hgone
        have htype := hgone.made.2
        rw [hok.2] at htype
        cases htype
      refine .goto (.emit (.emit hs' (by nofun) (by nofun) ?_))
      rintro _ _ ⟨⟩
      exact ⟨hok.1, hgone⟩
  | doneClosed _ => exact hs
  | done _ => exact .goto (hs'.setPcbs .set)
  | @close p pc pc' a e k s' hclose =>
      have hkept := hclose.loopKept.widen
      refine (hkept.logged hs).goto (Or.inr ?_)
      rw [hkept.loop, hpc]
      rfl
  | @closed p a e k =>
      have hclosing : (LoopPc.close p .unlock a e k).closing = some (p, e) := rfl
      obtain ⟨hlt, htype, hstate, hnone, _⟩ := hin.table.closing p e (hpc ▸ hclosing)
      refine .emit (.emit (.setPcbs (hs'.close hclosing ⟨hlt, htype⟩ ?_ rfl) .set))
      rw [hstate, hnone]
      nofun

theorem CallbackStep.logged {cb : Callback} (h : CallbackStep cfg s o cb t) (hs : s.Logged cfg)
    (hin : s.InOrder) : t.Logged cfg := by
  have conn : ∀ {e p es}, s.tcpPcbs e = some p → s.heap e = some es →
      ∀ k q, Event.dispatched es.conn p = .dispatched k q →
        q < s.nextPcb ∧ (s.pcbs q).conn = k := by
    rintro e p es hp hes k q ⟨⟩
    obtain ⟨es', hes', hconn, _⟩ := hin.table.entry e p hp
    rw [hes] at hes'
    cases hes'
    exact ⟨(hin.table.known e p hp).1, hconn.symm⟩
  have entered : ∀ {e p}, s.tcpPcbs e = some p → ¬Gone s.nextPcb s.pcbs s.tcpPcbs s.loop p :=
    fun hp => not_gone hp (hin.table.known _ _ hp).2.2
  have fresh : ¬Gone s.nextPcb s.pcbs s.tcpPcbs s.loop s.nextPcb :=
    fun hgone => Nat.lt_irrefl _ hgone.made.1
  cases h with
  | ignored => exact hs
  | @accept a e localEnd remoteEnd _ _ =>
      refine .emit (.newPcb (.setTcp (.emit hs) ?_)) ?_
      · rintro p ⟨⟩
        exact fresh
      · rintro k ⟨⟩
        refine ⟨s.nextPcb, ⟨Nat.lt_succ_self _, ?_⟩, ?_⟩ <;>
          simp only [Function.update_self] <;> rfl
  | assertion => exact hs
  | recvClosed _ _ hp hes _ _ => exact .goto (.emit (.emit (.emit hs) (by nofun) (conn hp hes)))
  | recvEmpty _ _ hp hes _ _ => exact .emit (.emit hs) (by nofun) (conn hp hes)
  | recv _ _ hp hes _ _ _ => exact .goto (.emit (.emit hs) (by nofun) (conn hp hes))
  | fin _ _ hp hes _ =>
      exact .setTcp (.closing (.emit (.emit hs) (by nofun) (conn hp hes)) rfl (entered hp)) nofun
  | err _ _ hp hes _ =>
      exact .setTcp (.closing (.emit (.emit (.emit hs)) (by nofun) (conn hp hes)) rfl (entered hp))
        nofun
  | sentMore _ _ _ _ _ _ _ => exact .goto (.emit (.emit hs))
  | sentIdle _ _ hp hes _ _ _ => exact .goto (.emit hs (by nofun) (conn hp hes))
  | sent _ _ hp hes _ _ _ _ => exact .goto (.setPcbs (.emit hs (by nofun) (conn hp hes)) .set)
  | pollMore _ _ _ _ _ _ _ => exact .goto (.emit hs)
  | udpEmpty => exact hs
  | udpKnown _ _ => exact hs.goto
  | udpNew _ _ => exact .goto hs.newPcb

theorem Step.logged {a : Act} (h : Step cfg s a t) (hs : s.Logged cfg) (hin : s.InOrder) :
    t.Logged cfg := by
  by_cases ha : a.ofGoroutine = true
  · exact (h.loopKept ha).logged hs
  cases h with
  | frame _ => exact .emit hs
  | takeRecved _ _ => exact hs.goto
  | takeClose _ _ _ => exact .emit hs
  | takeCloseUdp _ _ _ => exact .emit hs
  | takeSend _ _ => exact hs.goto
  | takeInput _ _ => exact hs.goto
  | loop hpc h => exact h.logged hpc hs hin
  | callback _ h => exact h.logged hs hin
  | release _ _ _ => exact hs
  | _ => exact absurd rfl ha

theorem reachable_logged (h : (bridge cfg).Reachable s) : s.Logged cfg := by
  refine h.invariant_of reachable_inOrder ?_ ?_
  · constructor
    · nofun
    · nofun
    · nofun
    · intro p
      rw [if_neg fun hp => Nat.not_lt_zero p hp.2]
      rfl
    · intro p
      exact Nat.zero_le 1
    · nofun
    · exact each_nil _
    · exact each_nil _
  · intro s a t hs _ hlogged hstep
    exact (step_cases hs hstep).logged hlogged hs

/-- The integrity of the connection table in one state, with the run that led to it. -/
structure Sys.TableSafe (cfg : Config) (s : Sys) : Prop where
  /-- outside `go_tcp_close_h` the keys are the allocated objects -/
  keys : s.loop.closing = none → ∀ e, (∃ p, s.tcpPcbs e = some p) ↔ ∃ es, s.heap e = some es
  /-- an entry is the PCB made by the accept that allocated the object -/
  own : ∀ e p, s.tcpPcbs e = some p → Made s.nextPcb s.pcbs .tcp p ∧
    ∃ es, s.heap e = some es ∧ es.conn = (s.pcbs p).conn
  /-- no accept is rejected, and each connection has one PCB -/
  accepted : ∀ k, .accepted k ∈ s.trace → .rejected k ∉ s.trace ∧
    ∃ p, Made s.nextPcb s.pcbs .tcp p ∧ (s.pcbs p).conn = k ∧
      ∀ q, Made s.nextPcb s.pcbs .tcp q → (s.pcbs q).conn = k → q = p
  dispatched : ∀ k p, .dispatched k p ∈ s.trace → (s.pcbs p).conn = k
  onAccept : ∀ p, Made s.nextPcb s.pcbs .tcp p →
    s.trace.count (.onAccept p) = if cfg.event then 1 else 0
  onClose : ∀ p, s.trace.count (.onClose p) ≤ 1
  /-- a chunk is queued after `OnAccept` and before `OnClose` -/
  queued : ∀ before p data after, s.trace = before ++ .queued p data :: after →
    (cfg.event = true → .onAccept p ∈ before) ∧ .onClose p ∉ before

/-- The connection table keeps its integrity in every reachable state. -/
theorem reachable_tableSafe (h : (bridge cfg).Reachable s) : s.TableSafe cfg := by
  have htable := (reachable_inOrder h).table
  have hlog := reachable_logged h
  constructor
  · intro hclosing e
    constructor
    · rintro ⟨p, hp⟩
      obtain ⟨es, hes, _⟩ := htable.entry e p hp
      exact ⟨es, hes⟩
    · rintro ⟨es, hes⟩
      rcases htable.allocated e es hes with hp | ⟨p, hp⟩
      · exact hp
      · rw [hclosing] at hp
        cases hp
  · intro e p hp
    obtain ⟨hlt, htype, _⟩ := htable.known e p hp
    obtain ⟨es, hes, hconn, _⟩ := htable.entry e p hp
    exact ⟨⟨hlt, htype⟩, es, hes, hconn⟩
  · intro k hk
    obtain ⟨p, hp, hconn⟩ := hlog.accepted k hk
    refine ⟨hlog.rejected k, p, hp, hconn, ?_⟩
    intro q hq hsame
    exact htable.conn_inj q p hq.1 hp.1 hq.2 hp.2 (hsame.trans hconn.symm)
  · intro k p hk
    exact (hlog.dispatched k p hk).2
  · intro p hp
    rw [hlog.onAccept p]
    simp only [hp.1, and_true]
  · exact hlog.onClose
  · intro before p data after htrace
    exact ⟨hlog.acceptFirst before _ after htrace p data rfl,
      hlog.closeLast before _ after htrace p data rfl⟩

/-- A connection is accepted, receives a chunk, and is closed by its peer. -/
theorem reachable_tableSafe_closed : ∃ s, (bridge Schedule.config).Reachable s ∧
    .queued 0 [9] ∈ s.trace ∧ .onClose 0 ∈ s.trace ∧ s.TableSafe Schedule.config := by
  obtain ⟨tr, s, hrun, _, htest⟩ := Machine.exists_run_of_exec (bridge Schedule.config)
    (fun _ _ => true)
    (Schedule.accept ++ [.callback (.recv 1 (some [9]) .ok) Schedule.fine] ++
      List.replicate 2 (.loop Schedule.fine) ++ [.callback (.recv 1 none .ok) Schedule.fine] ++
      List.replicate 6 (.loop Schedule.fine))
    (fun s => .queued 0 [9] ∈ s.trace ∧ .onClose 0 ∈ s.trace) (by decide)
  obtain ⟨hqueued, hclosed⟩ := of_decide_eq_true htest
  exact ⟨s, hrun.reachable, hqueued, hclosed, reachable_tableSafe hrun.reachable⟩

end LwipCs
