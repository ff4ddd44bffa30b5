import LwipCs.Bridge.TableSafety

/-!
# Uses of a `tcp_pcb` after it was closed

`cs_tcp_raw_close` ends with `tcp_close`, and lwIP has released the pcb before its
error callback. A connection is used afterwards in exactly two ways: by the error
callback itself, which calls `cs_tcp_raw_close`, and by `go_cs_tcp_close`, which
the loop calls for an entry of `closeQueue` whether or not the PCB is still in
`tcpPcbs`.
-/

namespace LwipCs

open Interleave

/-- The pcb of the connection is passed to lwIP only while lwIP has not got it back. -/
def UsesLive (k : ConnId) (before : List Event) (ev : Event) : Prop :=
  ∀ a call, ev = .lwip k a call → .rawClosed k ∉ before ∧ .errCallback k ∉ before

/-- The step is no error callback of the connection, and takes no entry of
`closeQueue` for it after its PCB has left `tcpPcbs`. -/
def PcbOk (k : ConnId) (s : Sys) : Act → Prop
  | .callback (.err a) _ => ∀ x, s.tpcbs a = some x → x.conn ≠ k
  | .take .close _ => ∀ p rest, s.closeQueue.buf = p :: rest → (s.pcbs p).type = .tcp →
      (s.pcbs p).conn = k → s.tcpPcbs (s.pcbs p).state = some p
  | _ => True

/-- What the trace says about the end of connections. -/
structure Ends (nextPcb : PcbId) (pcbs : PcbId → PCB) (tcpPcbs : Ptr → Option PcbId)
    (loop : LoopPc) (trace : List Event) : Prop where
  closed : ∀ k, .rawClosed k ∈ trace →
    ∃ p, Gone nextPcb pcbs tcpPcbs loop p ∧ (pcbs p).conn = k
  /-- a PCB leaves the table only on its way through `cs_tcp_raw_close` -/
  left : ∀ p, Made nextPcb pcbs .tcp p → tcpPcbs (pcbs p).state = some p ∨
    (∃ e, loop.closing = some (p, e)) ∨ .rawClosed (pcbs p).conn ∈ trace
  /-- the error callback uses the pcb -/
  errs : ∀ k, .errCallback k ∈ trace → ¬Each (UsesLive k) trace

/-- `Ends` of a state of the system. -/
abbrev Sys.Ended (s : Sys) : Prop := Ends s.nextPcb s.pcbs s.tcpPcbs s.loop s.trace

section

variable {nextPcb : PcbId} {pcbs : PcbId → PCB} {tcpPcbs : Ptr → Option PcbId}
variable {loop : LoopPc} {trace : List Event} {ev : Event}

namespace Ends

/-- One more event that ends no connection. -/
theorem emit (h : Ends nextPcb pcbs tcpPcbs loop trace)
    (hclosed : ∀ k, ev ≠ .rawClosed k := by nofun) (herr : ∀ k, ev ≠ .errCallback k := by nofun) :
    Ends nextPcb pcbs tcpPcbs loop (trace ++ [ev]) := by
  constructor
  · intro k hk
    rcases List.mem_append.mp hk with hk | hk
    · exact h.closed k hk
    · exact absurd (List.mem_singleton.mp hk).symm (hclosed k)
  · intro p hp
    rcases h.left p hp with hin | hclosing | hk
    · exact Or.inl hin
    · exact Or.inr (Or.inl hclosing)
    · exact Or.inr (Or.inr (List.mem_append_left _ hk))
  · intro k hk heach
    rcases List.mem_append.mp hk with hk | hk
    · exact h.errs k hk (each_snoc.mp heach).1
    · exact absurd (List.mem_singleton.mp hk).symm (herr k)

/-- `if Event != nil { Event.… }` -/
theorem notify (h : Ends nextPcb pcbs tcpPcbs loop trace) (event : Bool)
    (hclosed : ∀ k, ev ≠ .rawClosed k := by nofun) (herr : ∀ k, ev ≠ .errCallback k := by nofun) :
    Ends nextPcb pcbs tcpPcbs loop (trace ++ if event then [ev] else []) :=
  snoc_if (P := Ends nextPcb pcbs tcpPcbs loop) event h (h.emit hclosed herr)

theorem setPcbs (h : Ends nextPcb pcbs tcpPcbs loop trace) {pcbs' : PcbId → PCB}
    (hkept : PcbsKept pcbs pcbs') : Ends nextPcb pcbs' tcpPcbs loop trace := by
  refine { h with closed := ?_, left := ?_ }
  · intro k hk
    obtain ⟨q, hgone, hconn⟩ := h.closed k hk
    refine ⟨q, hgone.setPcbs hkept, ?_⟩
    rw [hkept.flow]
    exact hconn
  · simpa only [Made, hkept.flow] using h.left

theorem goto (h : Ends nextPcb pcbs tcpPcbs loop trace) {pc : LoopPc}
    (hpc : pc.closing = loop.closing) : Ends nextPcb pcbs tcpPcbs pc trace := by
  refine { h with closed := ?_, left := ?_ }
  · intro k hk
    obtain ⟨p, ⟨hmade, hremoved, hnot⟩, hconn⟩ := h.closed k hk
    exact ⟨p, ⟨hmade, hremoved, fun e => by rw [hpc]; exact hnot e⟩, hconn⟩
  · rw [hpc]
    exact h.left

/-- A PCB just made; a TCP PCB is entered at once. -/
theorem newPcb (h : Ends nextPcb pcbs tcpPcbs loop trace) {flow : Flow}
    (hin : flow.type = .tcp → tcpPcbs flow.state = some nextPcb) :
    Ends (nextPcb + 1) (Function.update pcbs nextPcb (newPCB nextPcb flow)) tcpPcbs loop trace := by
  have old : ∀ {q}, q < nextPcb →
      Function.update pcbs nextPcb (newPCB nextPcb flow) q = pcbs q :=
    fun hq => Function.update_of_ne (Nat.ne_of_lt hq) ..
  refine { h with closed := ?_, left := ?_ }
  · intro k hk
    obtain ⟨q, ⟨hmade, hremoved, hnot⟩, hconn⟩ := h.closed k hk
    refine ⟨q, ⟨hmade.mono Extends.newPcb, ?_, hnot⟩, ?_⟩
    · rw [old hmade.1]
      exact hremoved
    · rw [old hmade.1]
      exact hconn
  · rintro q ⟨hq, htype⟩
    rcases Nat.lt_succ_iff_lt_or_eq.mp hq with hlt | rfl
    · rw [old hlt] at htype ⊢
      exact h.left q ⟨hlt, htype⟩
    · rw [Function.update_self] at htype ⊢
      exact Or.inl (hin htype)

/-- An entry is made at a free address for a PCB not yet made. -/
theorem enter (h : Ends nextPcb pcbs tcpPcbs loop trace) {e : Ptr} (he : tcpPcbs e = none) :
    Ends nextPcb pcbs (Function.update tcpPcbs e (some nextPcb)) loop trace := by
  refine { h with closed := ?_, left := ?_ }
  · intro k hk
    obtain ⟨p, ⟨hmade, hremoved, hnot⟩, hconn⟩ := h.closed k hk
    refine ⟨p, ⟨hmade, ?_, hnot⟩, hconn⟩
    by_cases hpe : (pcbs p).state = e
    · rw [hpe, Function.update_self]
      intro hsame
      exact absurd (Option.some.inj hsame).symm (Nat.ne_of_lt hmade.1)
    · rwa [Function.update_of_ne hpe]
  · intro p hp
    rcases h.left p hp with hin | hrest
    · refine Or.inl ?_
      rw [Function.update_of_ne]
      · exact hin
      · rintro hpe
        rw [hpe, he] at hin
        cases hin
    · exact Or.inr hrest

/-- The loop begins to close an entry. -/
theorem remove (h : Ends nextPcb pcbs tcpPcbs loop trace) {pc : LoopPc} {e : Ptr} {p : PcbId}
    (hp : tcpPcbs e = some p) (he : (pcbs p).state = e) (hloop : loop.closing = none)
    (hpc : pc.closing = some (p, e)) :
    Ends nextPcb pcbs (Function.update tcpPcbs e none) pc trace := by
  refine { h with closed := ?_, left := ?_ }
  · intro k hk
    obtain ⟨q, ⟨hmade, hremoved, hnot⟩, hconn⟩ := h.closed k hk
    have hqp : p ≠ q := by
      rintro rfl
      exact hremoved (he ▸ hp)
    refine ⟨q, ⟨hmade, ?_, ?_⟩, hconn⟩
    · by_cases hqe : (pcbs q).state = e
      · rw [hqe, Function.update_self]
        nofun
      · rwa [Function.update_of_ne hqe]
    · intro e'
      rw [hpc]
      intro hsame
      exact hqp (Prod.mk.inj (Option.some.inj hsame)).1
  · intro q hq
    by_cases hqp : q = p
    · subst hqp
      exact Or.inr (Or.inl ⟨e, hpc⟩)
    · rcases h.left q hq with hin | ⟨e', hclosing⟩ | hk
      · refine Or.inl ?_
        rw [Function.update_of_ne]
        · exact hin
        · intro hqe
          rw [hqe, hp] at hin
          exact hqp (Option.some.inj hin).symm
      · rw [hloop] at hclosing
        cases hclosing
      · exact Or.inr (Or.inr hk)

/-- `cs_tcp_raw_close` is done with the PCB the loop was closing. -/
theorem close (h : Ends nextPcb pcbs tcpPcbs loop trace) {pc : LoopPc} {p : PcbId} {e : Ptr}
    (hclosing : loop.closing = some (p, e)) (hp : Made nextPcb pcbs .tcp p)
    (hremoved : tcpPcbs (pcbs p).state ≠ some p) (hpc : pc.closing = none) :
    Ends nextPcb pcbs tcpPcbs pc (trace ++ [.rawClosed (pcbs p).conn]) := by
  have gone : ∀ {q}, tcpPcbs (pcbs q).state ≠ some q → Made nextPcb pcbs .tcp q →
      Gone nextPcb pcbs tcpPcbs pc q := by
    intro q hremoved hq
    refine ⟨hq, hremoved, ?_⟩
    intro e'
    rw [hpc]
    nofun
  constructor
  · intro k hk
    rcases List.mem_append.mp hk with hk | hk
    · obtain ⟨q, hgone, hconn⟩ := h.closed k hk
      exact ⟨q, gone hgone.removed hgone.made, hconn⟩
    · cases List.mem_singleton.mp hk
      exact ⟨p, gone hremoved hp, rfl⟩
  · intro q hq
    rcases h.left q hq with hin | ⟨e', hsame⟩ | hk
    · exact Or.inl hin
    · rw [hclosing] at hsame
      cases hsame
      exact Or.inr (Or.inr (List.mem_append_right _ (List.mem_singleton_self _)))
    · exact Or.inr (Or.inr (List.mem_append_left _ hk))
  · intro k hk heach
    rcases List.mem_append.mp hk with hk | hk
    · exact h.errs k hk (each_snoc.mp heach).1
    · cases List.mem_singleton.mp hk

/-- The error callback uses the pcb it is about. -/
theorem err (h : Ends nextPcb pcbs tcpPcbs loop trace) {k : ConnId} {a : Ptr} {call : LwipCall} :
    Ends nextPcb pcbs tcpPcbs loop (trace ++ [.errCallback k] ++ [.lwip k a call]) := by
  have mem : ∀ {x : Event}, x ∈ trace → x ∈ trace ++ [.errCallback k] ++ [.lwip k a call] :=
    fun hx => List.mem_append_left _ (List.mem_append_left _ hx)
  constructor
  · intro k' hk'
    exact h.closed k' (by simpa using hk')
  · intro p hp
    rcases h.left p hp with hin | hclosing | hk
    · exact Or.inl hin
    · exact Or.inr (Or.inl hclosing)
    · exact Or.inr (Or.inr (mem hk))
  · intro k' hk' heach
    obtain ⟨hfront, hlast⟩ := each_snoc.mp heach
    by_cases hkk : k' = k
    · subst hkk
      exact (hlast a call rfl).2 (by simp)
    · exact h.errs k' (by simpa [hkk] using hk') (each_snoc.mp hfront).1

/-- The use of a pcb that was not closed is no use after the end. -/
theorem use (h : Ends nextPcb pcbs tcpPcbs loop trace) {k k' : ConnId} {a : Ptr} {call : LwipCall}
    (hclosed : .rawClosed k' ∉ trace) :
    Each (UsesLive k) (trace ++ [.lwip k' a call]) ↔ Each (UsesLive k) trace := by
  rw [each_snoc]
  constructor
  · exact fun heach => heach.1
  · intro heach
    refine ⟨heach, ?_⟩
    rintro _ _ ⟨⟩
    exact ⟨hclosed, fun herr => h.errs k herr heach⟩

/-- The connection of a PCB that is not gone was not closed. -/
theorem not_closed (h : Ends nextPcb pcbs tcpPcbs loop trace) {p : PcbId}
    (hinj : ∀ q, Made nextPcb pcbs .tcp q → (pcbs q).conn = (pcbs p).conn → q = p)
    (hgone : ¬Gone nextPcb pcbs tcpPcbs loop p) : .rawClosed (pcbs p).conn ∉ trace := by
  intro hk
  obtain ⟨q, hq, hconn⟩ := h.closed _ hk
  rw [hinj q hq.made hconn] at hq
  exact hgone hq

end Ends

/-- An event that uses no pcb of the connection. -/
theorem each_other {k : ConnId} (hev : ∀ a call, ev ≠ .lwip k a call := by nofun) :
    Each (UsesLive k) (trace ++ [ev]) ↔ Each (UsesLive k) trace := by
  rw [each_snoc]
  exact and_iff_left fun a call hsame => absurd hsame (hev a call)

theorem each_notify {k : ConnId} (event : Bool) (hev : ∀ a call, ev ≠ .lwip k a call := by nofun) :
    Each (UsesLive k) (trace ++ if event then [ev] else []) ↔ Each (UsesLive k) trace :=
  snoc_if (P := fun tr => Each (UsesLive k) tr ↔ _) event Iff.rfl (each_other hev)

/-- A step that is allowed, and whose events use no pcb after its end. -/
theorem each_ok {k : ConnId} {trace' : List Event} {ok : Prop} (hok : ok)
    (h : Each (UsesLive k) trace' ↔ Each (UsesLive k) trace) :
    Each (UsesLive k) trace' ↔ Each (UsesLive k) trace ∧ ok :=
  h.trans (and_iff_left hok).symm

end

variable {cfg : Config} {s t : Sys} {o : Outcomes} {k : ConnId}

/-- A PCB in the table has a connection that was not closed. -/
theorem Sys.Ended.entered (h : s.Ended) (htable : s.InTable) {e : Ptr} {p : PcbId}
    (hp : s.tcpPcbs e = some p) : .rawClosed (s.pcbs p).conn ∉ s.trace := by
  obtain ⟨hlt, htype, hstate⟩ := htable.known e p hp
  refine h.not_closed ?_ (not_gone hp hstate)
  intro q hq hconn
  exact htable.conn_inj q p hq.1 hlt hq.2 htype hconn

/-- The object under an entry belongs to a connection that was not closed. -/
theorem Sys.Ended.object (h : s.Ended) (htable : s.InTable) {e : Ptr} {p : PcbId} {es : RawState}
    (hp : s.tcpPcbs e = some p) (hes : s.heap e = some es) : .rawClosed es.conn ∉ s.trace := by
  obtain ⟨es', hes', hconn, _⟩ := htable.entry e p hp
  rw [hes] at hes'
  cases hes'
  rw [hconn]
  exact h.entered htable hp

theorem LoopKept.ended (h : LoopKept Event.ofGoroutine s t) (hs : s.Ended) :
    t.Ended ∧ (Each (UsesLive k) t.trace ↔ Each (UsesLive k) s.trace) := by
  constructor
  · rw [Sys.Ended, h.nextPcb, h.tcpPcbs, h.loop]
    refine Ends.setPcbs (h.trace.ind hs fun tr ev hev hs => ?_) h.pcbs
    cases ev <;> first | contradiction | exact hs.emit
  · refine h.trace.ind (P := fun tr => Each (UsesLive k) tr ↔ _) Iff.rfl fun tr ev hev hs => ?_
    cases ev <;> first | contradiction | exact Iff.trans each_other hs

theorem LoopStep.ended {pc : LoopPc} (hpc : s.loop = pc) (h : LoopStep cfg s o pc t)
    (hs : s.Ended) (hin : s.InOrder) :
    t.Ended ∧ (Each (UsesLive k) t.trace ↔ Each (UsesLive k) s.trace) := by
  have hs' : Ends s.nextPcb s.pcbs s.tcpPcbs pc s.trace := hpc ▸ hs
  have hok : pc.Ok s.nextPcb s.pcbs := hpc ▸ hin.known.loop
  cases h with
  | creditClosed _ => exact ⟨hs'.goto rfl, Iff.rfl⟩
  | @credit r herr =>
      have hentered := hin.table.entered hok herr (by rw [hpc]; rfl)
      exact ⟨.goto (.emit hs') rfl, hs.use (hs.entered hin.table hentered)⟩
  | dropped _ => exact ⟨.goto (.emit hs') rfl, each_other⟩
  | passed _ _ => exact ⟨.goto (.emit hs') rfl, each_other⟩
  | sendEmpty _ => exact ⟨hs, Iff.rfl⟩
  | udpSendEmpty _ => exact ⟨hs, Iff.rfl⟩
  | sendFailed _ _ _ _ _ => exact ⟨.goto (.emit (hs'.setPcbs .set)) rfl, each_other⟩
  | sendTcp herr htype _ hes _ _ _ =>
      have hentered := hin.table.entered ⟨hok, htype⟩ herr (by rw [hpc]; rfl)
      refine ⟨.goto (.emit (.emit (hs'.setPcbs .set))) rfl, Iff.trans each_other ?_⟩
      exact hs.use (hs.object hin.table hentered hes)
  | sendUdp _ _ _ => exact ⟨.goto (.emit (.emit hs')) rfl, Iff.trans each_other each_other⟩
  | sendUdpFailed _ _ _ => exact ⟨.goto (.emit hs') rfl, each_other⟩
  | post _ => exact ⟨hs'.goto rfl, Iff.rfl⟩
  | netif => exact ⟨.goto (.emit hs') rfl, each_other⟩
  | netifNone => exact ⟨hs'.goto rfl, Iff.rfl⟩
  | leave => exact ⟨hs'.goto rfl, Iff.rfl⟩
  | target => exact ⟨hs'.goto rfl, Iff.rfl⟩
  | pushClosed _ => exact ⟨hs, Iff.rfl⟩
  | push _ => exact ⟨.goto (.emit (.emit hs')) rfl, Iff.trans each_other each_other⟩
  | pushUdp _ => exact ⟨.goto (.emit (.emit hs')) rfl, Iff.trans each_other each_other⟩
  | doneClosed _ => exact ⟨hs, Iff.rfl⟩
  | done _ => exact ⟨.goto (hs'.setPcbs .set) rfl, Iff.rfl⟩
  | @close p pc pc' a e k s' hclose =>
      obtain ⟨hs', heach⟩ := hclose.loopKept.widen.ended hs
      refine ⟨hs'.goto ?_, heach⟩
      rw [hclose.loopKept.loop, hpc]
      rfl
  | @closed p a e k' =>
      have hclosing : (LoopPc.close p .unlock a e k').closing = some (p, e) := rfl
      obtain ⟨hlt, htype, hstate, hnone, _⟩ := hin.table.closing p e (hpc ▸ hclosing)
      have hconn : (s.pcbs p).conn = k' := by
        have := hin.table.loopOk
        rw [hpc] at this
        exact this.1
      have hremoved : s.tcpPcbs (s.pcbs p).state ≠ some p := by
        rw [hstate, hnone]
        nofun
      have hopen : .rawClosed (s.pcbs p).conn ∉ s.trace := by
        refine hs.not_closed ?_ fun hgone => hgone.notClosing e (hpc ▸ hclosing)
        intro q hq hsame
        exact hin.table.conn_inj q p hq.1 hlt hq.2 htype hsame
      subst hconn
      have hnotify : Ends s.nextPcb s.pcbs s.tcpPcbs (.close p .unlock a e (s.pcbs p).conn)
          (s.trace ++ if cfg.event then [.onClose p] else []) := hs'.notify cfg.event
      refine ⟨.setPcbs (.close (.emit hnotify) hclosing ⟨hlt, htype⟩ hremoved rfl) .set, ?_⟩
      refine Iff.trans each_other (Iff.trans (hnotify.use ?_) (each_notify cfg.event))
      cases cfg.event <;> simpa using hopen

theorem CallbackStep.ended {cb : Callback} (hloop : s.loop = .lwip)
    (h : CallbackStep cfg s o cb t) (hs : s.Ended) (hin : s.InOrder) :
    t.Ended ∧ (Each (UsesLive k) t.trace ↔
      Each (UsesLive k) s.trace ∧ PcbOk k s (.callback cb o)) := by
  have hnone : s.loop.closing = none := by
    rw [hloop]
    rfl
  have stay : ∀ {pc : LoopPc} {trace : List Event}, pc.closing = none →
      Ends s.nextPcb s.pcbs s.tcpPcbs s.loop trace → Ends s.nextPcb s.pcbs s.tcpPcbs pc trace :=
    fun hpc h => h.goto (hpc.trans hnone.symm)
  cases h with
  | @ignored cb hcb =>
      refine ⟨hs, each_ok ?_ Iff.rfl⟩
      cases cb with
      | err a => cases hcb
      | _ => trivial
  | @accept a e localEnd remoteEnd ha he =>
      have hfree := hin.table.not_entered he
      have hnew : .rawClosed s.nextConn ∉ s.trace := by
        intro hk
        obtain ⟨p, hgone, hconn⟩ := hs.closed _ hk
        exact Nat.ne_of_lt (hin.table.conn_lt p hgone.made.1 hgone.made.2) hconn
      refine ⟨.emit (.newPcb (.enter (.notify (.emit hs) cfg.event) hfree) ?_), ?_⟩
      · intro _
        exact Function.update_self ..
      · refine each_ok trivial (Iff.trans each_other (Iff.trans (each_notify cfg.event) ?_))
        exact hs.use hnew
  | assertion => exact ⟨hs, each_ok trivial Iff.rfl⟩
  | recvClosed _ _ _ _ _ _ =>
      refine ⟨stay rfl (.emit (.emit (.emit hs))), each_ok trivial ?_⟩
      exact Iff.trans each_other (Iff.trans each_other each_other)
  | recvEmpty _ _ _ _ _ _ =>
      exact ⟨.emit (.emit hs), each_ok trivial (Iff.trans each_other each_other)⟩
  | recv _ _ _ _ _ _ _ =>
      exact ⟨stay rfl (.emit (.emit hs)), each_ok trivial (Iff.trans each_other each_other)⟩
  | fin _ _ hp hes _ =>
      have hstate := (hin.table.known _ _ hp).2.2
      refine ⟨.remove (.emit (.emit hs)) hp hstate hnone rfl, each_ok trivial ?_⟩
      exact Iff.trans each_other (hs.use (hs.object hin.table hp hes))
  | @err a e p x es ha harg hp hes hconn =>
      have hstate := (hin.table.known _ _ hp).2.2
      rw [hconn]
      refine ⟨.remove (.emit hs.err) hp hstate hnone rfl, ?_⟩
      have hok : PcbOk k s (.callback (.err a) o) ↔ x.conn ≠ k := by
        simp only [PcbOk, ha, Option.some.injEq, forall_eq']
      rw [hok]
      by_cases hk : x.conn = k
      · subst hk
        refine iff_of_false ?_ fun h => h.2 rfl
        intro heach
        have hlast := (each_snoc.mp (each_snoc.mp heach).1).2
        exact (hlast a .unregister rfl).2 (by simp)
      · refine each_ok hk (Iff.trans each_other (Iff.trans (each_other ?_) each_other))
        rintro a call ⟨⟩
        exact hk rfl
  | sentMore _ _ hp hes _ _ _ =>
      have hclosed := hs.object hin.table hp hes
      refine ⟨stay rfl (.emit (.emit hs)), each_ok trivial ?_⟩
      refine Iff.trans (Ends.use (.emit hs) ?_) (hs.use hclosed)
      simpa using hclosed
  | sentIdle _ _ _ _ _ _ _ => exact ⟨stay rfl (.emit hs), each_ok trivial each_other⟩
  | sent _ _ _ _ _ _ _ _ =>
      exact ⟨.setPcbs (stay rfl (.emit hs)) .set, each_ok trivial each_other⟩
  | pollMore _ _ hp hes _ _ _ =>
      exact ⟨stay rfl (.emit hs), each_ok trivial (hs.use (hs.object hin.table hp hes))⟩
  | udpEmpty => exact ⟨hs, each_ok trivial Iff.rfl⟩
  | udpKnown _ _ => exact ⟨stay rfl hs, each_ok trivial Iff.rfl⟩
  | udpNew _ _ =>
      exact ⟨.newPcb (stay rfl (hs.notify cfg.event)) nofun,
        each_ok trivial (each_notify cfg.event)⟩

theorem Step.ended {a : Act} (h : Step cfg s a t) (hs : s.Ended) (hin : s.InOrder) :
    t.Ended ∧ (Each (UsesLive k) t.trace ↔ Each (UsesLive k) s.trace ∧ PcbOk k s a) := by
  by_cases ha : a.ofGoroutine = true
  · obtain ⟨hs', heach⟩ := (h.loopKept ha).ended (k := k) hs
    refine ⟨hs', each_ok ?_ heach⟩
    cases a <;> trivial
  cases h with
  | frame _ => exact ⟨.emit hs, each_ok trivial each_other⟩
  | takeRecved hloop _ => exact ⟨hs.goto (by rw [hloop]; rfl), each_ok trivial Iff.rfl⟩
  | @takeClose o p q hloop hrecv htype =>
      obtain ⟨hbuf, _⟩ := Chan.recv_some hrecv
      have hp : Made s.nextPcb s.pcbs .tcp p := ⟨hin.known.closes p (by simp [hbuf]), htype⟩
      have hok : PcbOk k s (.take .close o) ↔
          ((s.pcbs p).conn = k → s.tcpPcbs (s.pcbs p).state = some p) := by
        simp [PcbOk, hbuf, htype]
      refine ⟨.emit hs, ?_⟩
      rw [hok]
      rcases hs.left p hp with hentered | ⟨e, hclosing⟩ | hclosed
      · exact each_ok (fun _ => hentered) (hs.use (hs.entered hin.table hentered))
      · rw [hloop] at hclosing
        cases hclosing
      · -- the PCB is gone, so its entry is taken after `cs_tcp_raw_close`
        by_cases hk : (s.pcbs p).conn = k
        · subst hk
          refine iff_of_false ?_ ?_
          · intro heach
            exact ((each_snoc.mp heach).2 _ _ rfl).1 hclosed
          · rintro ⟨_, hentered⟩
            exact hs.entered hin.table (hentered rfl) hclosed
        · refine each_ok (fun h => absurd h hk) (each_other ?_)
          rintro a call ⟨⟩
          exact hk rfl
  | @takeCloseUdp o p q hloop hrecv htype =>
      obtain ⟨hbuf, _⟩ := Chan.recv_some hrecv
      have hok : PcbOk k s (.take .close o) := by simp [PcbOk, hbuf, htype]
      exact ⟨.emit hs, each_ok hok each_other⟩
  | takeSend hloop _ => exact ⟨hs.goto (by rw [hloop]; rfl), each_ok trivial Iff.rfl⟩
  | takeInput hloop _ => exact ⟨hs.goto (by rw [hloop]; rfl), each_ok trivial Iff.rfl⟩
  | loop hpc h =>
      obtain ⟨hs', heach⟩ := h.ended hpc hs hin
      exact ⟨hs', each_ok trivial heach⟩
  | callback hloop h => exact h.ended hloop hs hin
  | release _ _ _ => exact ⟨hs, each_ok trivial Iff.rfl⟩
  | _ => exact absurd rfl ha

theorem reachable_ended (h : (bridge cfg).Reachable s) : s.Ended := by
  refine h.invariant_of reachable_inOrder ?_ ?_
  · refine ⟨nofun, ?_, nofun⟩
    rintro p ⟨hp, _⟩
    exact absurd hp (Nat.not_lt_zero p)
  · intro s a t hs _ hended hstep
    exact ((step_cases hs hstep).ended (k := 0) hended hs).1

/-- The pcb of a connection is never used after its end, exactly if lwIP never calls
the error callback for it and no `Close` of it is handled after it left the table. -/
theorem run_usesLive_iff {tr : List (Sys × Act)} (hrun : (bridge cfg).Run tr s) (k : ConnId) :
    Each (UsesLive k) s.trace ↔ Machine.Meets (PcbOk k) tr := by
  have all : Machine.Meets (fun _ _ => True) tr := fun _ _ => trivial
  refine hrun.iff_meets (P := fun s => Each (UsesLive k) s.trace) all
    (fun h _ => And.intro (reachable_inOrder h.reachable) (reachable_ended h.reachable))
    (each_nil _) ?_
  intro s a t hs _ hstep
  exact ((step_cases hs.1 hstep).ended hs.2 hs.1).2

/-- A connection that its peer closes, and nobody else. -/
theorem run_usesLive_fin : ∃ tr s, (bridge Schedule.config).Run tr s ∧
    Each (UsesLive 0) s.trace ∧ .rawClosed 0 ∈ s.trace := by
  obtain ⟨tr, s, hrun, hmeets, htest⟩ := Machine.exists_run_of_exec (bridge Schedule.config)
    (fun _ a => match a with
      | .callback (.err _) _ => false
      | .take .close _ => false
      | _ => true)
    (Schedule.accept ++ [.callback (.recv 1 none .ok) Schedule.fine] ++
      List.replicate 6 (.loop Schedule.fine))
    (fun s => .rawClosed 0 ∈ s.trace) (by decide)
  have hok : Machine.Meets (PcbOk 0) tr := by
    refine hmeets.mono ?_
    intro s a hok
    cases a with
    | callback cb o =>
        cases cb with
        | err _ => cases hok
        | _ => trivial
    | take q o =>
        cases q with
        | close => cases hok
        | _ => trivial
    | _ => trivial
  exact ⟨tr, s, hrun, (run_usesLive_iff hrun 0).mpr hok, of_decide_eq_true htest⟩

/-- The peer closes the connection 0, lwIP releases its pcb and accepts the connection
1 with the same pcb, and `Close` of the first connection closes the second. -/
theorem usesLive_close_reused : ∃ s, (bridge Schedule.config).Reachable s ∧
    ¬Each (UsesLive 0) s.trace ∧
      s.tpcbs 1 = some ⟨1, some 3, true, 0, ⟨.v4 0, 80⟩, ⟨.v4 0, 4001⟩⟩ := by
  obtain ⟨tr, s, hrun, _, htest⟩ := Machine.exists_run_of_exec (bridge Schedule.config)
    (fun _ _ => true)
    (Schedule.accept ++ [.callback (.recv 1 none .ok) Schedule.fine] ++
      List.replicate 6 (.loop { Schedule.fine with frees := true }) ++
      [.callback (.accept (some 1) .ok (some 3) ⟨.v4 0, 80⟩ ⟨.v4 0, 4001⟩) Schedule.fine,
        .loop Schedule.fine, .call 0 (.close 0), .go 0, .go 0, .go 0, .go 0,
        .take .close Schedule.fine])
    (fun s => s.trace = s.trace.dropLast ++ [.lwip 0 1 .close] ∧
      .rawClosed 0 ∈ s.trace.dropLast ∧
      s.tpcbs 1 = some ⟨1, some 3, true, 0, ⟨.v4 0, 80⟩, ⟨.v4 0, 4001⟩⟩) (by decide)
  obtain ⟨hlast, hclosed, hpcb⟩ := of_decide_eq_true htest
  refine ⟨s, hrun.reachable, ?_, hpcb⟩
  intro heach
  exact (heach _ _ [] hlast 1 .close rfl).1 hclosed

end LwipCs
