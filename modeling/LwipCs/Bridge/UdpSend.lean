import LwipCs.Bridge.Handshake
import LwipCs.Bridge.Writes

/-!
# What becomes of a posted datagram

`Write` on a UDP PCB returns once its buffer is in `sendQueue`. The loop handles the
buffers of a PCB in the order in which they were posted, each once, and `Send` looks
at `err` again: a buffer posted before `Close` is dropped if its `Send` runs after. The
test takes no lock, so `Close` may still come between it and `udpSend`.
-/

namespace LwipCs

open Interleave

/-- The buffers posted for `p`. -/
def Event.enqueuedOn (p : PcbId) : Event → Option WriteId
  | .enqueued q w => if q = p then some w else none
  | _ => none

/-- The buffers of `p` whose `Send` has run. -/
def Event.handledOn (p : PcbId) : Event → Option WriteId
  | .dropped q w | .charSend q w _ | .udpCharSendto q w .. => if q = p then some w else none
  | _ => none

/-- The datagrams of `p` that have passed the test of `err`. -/
def Event.passedOn (p : PcbId) : Event → Option WriteId
  | .passed q w => if q = p then some w else none
  | _ => none

/-- The datagrams of `p` that were handed to `cs_udp_char_sendto`. -/
def Event.sentOn (p : PcbId) : Event → Option WriteId
  | .udpCharSendto q w .. => if q = p then some w else none
  | _ => none

/-- The datagram of `p` between the test of `err` and `udpSend`. -/
def LoopPc.passing (p : PcbId) : LoopPc → List WriteId
  | .udpSend entry => if entry.pcb = p then [entry.data] else []
  | _ => []

/-- `Send` drops an entry exactly if it finds `err` set. -/
def Guarded (before : List Event) (ev : Event) : Prop :=
  (∀ p w, ev = .passed p w → .errSet p ∉ before) ∧ ∀ p w, ev = .dropped p w → .errSet p ∈ before

/-- `sendQueue` and the loop agree with the trace. -/
structure Sends (nextPcb : PcbId) (pcbs : PcbId → PCB) (entries : List SendEntry)
    (trace : List Event) : Prop where
  order : ∀ p, select (Event.enqueuedOn p) trace =
    select (Event.handledOn p) trace ++ pendingOn p entries
  errSet : ∀ p, .errSet p ∈ trace → p < nextPcb ∧ (pcbs p).err = true
  erred : ∀ p, p < nextPcb → (pcbs p).err = true → .errSet p ∈ trace
  tcp : ∀ p w ret, .charSend p w ret ∈ trace → Made nextPcb pcbs .tcp p
  ends : ∀ p w laddr raddr data, .udpCharSendto p w laddr raddr data ∈ trace →
    p < nextPcb ∧ (pcbs p).localEnd = laddr ∧ (pcbs p).remoteEnd = raddr
  guarded : Each Guarded trace

/-- `Sends` of a state of the system. -/
abbrev Sys.InSends (s : Sys) : Prop :=
  Sends s.nextPcb s.pcbs (s.loop.inHand ++ s.sendQueue.buf) s.trace

/-- An event of `sendQueue`, or the setting of `err`. -/
def Event.ofSends : Event → Bool
  | .enqueued .. | .dropped .. | .passed .. | .charSend .. | .udpCharSendto .. | .errSet _ => true
  | _ => false

section

variable {nextPcb : PcbId} {pcbs : PcbId → PCB} {entries : List SendEntry}
variable {trace : List Event} {ev : Event}

theorem mem_enqueuedOn {p : PcbId} {w : WriteId} :
    w ∈ select (Event.enqueuedOn p) trace ↔ .enqueued p w ∈ trace := by
  constructor
  · intro hw
    obtain ⟨ev, hev, hsame⟩ := List.mem_filterMap.mp hw
    cases ev with
    | enqueued q v =>
        simp only [Event.enqueuedOn, Option.ite_none_right_eq_some] at hsame
        obtain ⟨rfl, hvw⟩ := hsame
        cases hvw
        exact hev
    | _ => cases hsame
  · intro hw
    exact List.mem_filterMap.mpr ⟨_, hw, if_pos rfl⟩

/-- What is posted for one PCB is among what is posted. -/
theorem enqueuedOn_sublist (p : PcbId) (trace : List Event) :
    (select (Event.enqueuedOn p) trace).Sublist (select Event.enqueuedWrite trace) := by
  induction trace with
  | nil => exact List.Sublist.refl _
  | cons ev rest ih =>
      cases ev with
      | enqueued q w =>
          have hall : select Event.enqueuedWrite (.enqueued q w :: rest) =
              w :: select Event.enqueuedWrite rest := rfl
          rw [hall]
          by_cases hq : q = p
          · simpa [select, Event.enqueuedOn, hq] using ih
          · have hnone : (Event.enqueued q w).enqueuedOn p = none := if_neg hq
            rw [select, List.filterMap_cons_none hnone]
            exact ih.cons w
      | _ => exact ih

namespace Sends

theorem emit (h : Sends nextPcb pcbs entries trace) (hev : ev.ofSends = false := by rfl) :
    Sends nextPcb pcbs entries (trace ++ [ev]) := by
  have mem : ∀ {x : Event}, x.ofSends = true → (x ∈ trace ++ [ev] ↔ x ∈ trace) := by
    intro x hx
    have hne : x ≠ ev := by
      rintro rfl
      rw [hev] at hx
      cases hx
    simp [hne]
  have hquiet : (∀ p, ev.enqueuedOn p = none ∧ ev.handledOn p = none) ∧ Guarded trace ev := by
    cases ev with
    | enqueued => cases hev
    | dropped => cases hev
    | passed => cases hev
    | charSend => cases hev
    | udpCharSendto => cases hev
    | errSet => cases hev
    | _ => exact ⟨fun _ => ⟨rfl, rfl⟩, nofun, nofun⟩
  constructor
  · intro p
    rw [select_snoc, select_snoc, (hquiet.1 p).1, (hquiet.1 p).2]
    simpa using h.order p
  · intro p hp
    exact h.errSet p ((mem rfl).mp hp)
  · intro p hp herr
    exact List.mem_append_left _ (h.erred p hp herr)
  · intro p w ret hp
    exact h.tcp p w ret ((mem rfl).mp hp)
  · intro p w laddr raddr data hp
    exact h.ends p w laddr raddr data ((mem rfl).mp hp)
  · exact each_snoc.mpr ⟨h.guarded, hquiet.2⟩

/-- `if Event != nil { Event.… }` -/
theorem notify (event : Bool) (h : Sends nextPcb pcbs entries trace)
    (hev : ev.ofSends = false := by rfl) :
    Sends nextPcb pcbs entries (trace ++ if event then [ev] else []) :=
  snoc_if (P := Sends nextPcb pcbs entries) event h (h.emit hev)

theorem setPcb (h : Sends nextPcb pcbs entries trace) {p : PcbId} {x : PCB}
    (hflow : x.toFlow = (pcbs p).toFlow := by rfl) (herr : x.err = (pcbs p).err := by rfl) :
    Sends nextPcb (Function.update pcbs p x) entries trace := by
  have same : ∀ q, (Function.update pcbs p x q).toFlow = (pcbs q).toFlow ∧
      (Function.update pcbs p x q).err = (pcbs q).err := by
    intro q
    constructor
    · exact flow_update hflow q
    · exact update_field PCB.err herr q
  refine { h with errSet := ?_, erred := ?_, tcp := ?_, ends := ?_ }
  · simpa only [same] using h.errSet
  · simpa only [same] using h.erred
  · simpa only [Made, same] using h.tcp
  · simpa only [same] using h.ends

/-- `PCB.close` sets `err`. -/
theorem setErr (h : Sends nextPcb pcbs entries trace) {p : PcbId} (hp : p < nextPcb) :
    Sends nextPcb (Function.update pcbs p { pcbs p with err := true }) entries
      (trace ++ [.errSet p]) := by
  have flow : ∀ q, (Function.update pcbs p { pcbs p with err := true } q).toFlow =
      (pcbs q).toFlow := flow_update (by rfl)
  constructor
  · intro q
    rw [select_snoc, select_snoc]
    simpa [Event.enqueuedOn, Event.handledOn] using h.order q
  · intro q hq
    by_cases hqp : q = p
    · subst hqp
      rw [Function.update_self]
      exact ⟨hp, rfl⟩
    · rw [Function.update_of_ne hqp]
      exact h.errSet q (by simpa [hqp] using hq)
  · intro q hq herr
    by_cases hqp : q = p
    · subst hqp
      exact List.mem_append_right _ (List.mem_singleton_self _)
    · rw [Function.update_of_ne hqp] at herr
      exact List.mem_append_left _ (h.erred q hq herr)
  · intro q w ret hq
    simp only [Made, flow]
    exact h.tcp q w ret (by simpa using hq)
  · intro q w laddr raddr data hq
    rw [flow]
    exact h.ends q w laddr raddr data (by simpa using hq)
  · exact each_snoc.mpr ⟨h.guarded, nofun, nofun⟩

theorem newPcb (h : Sends nextPcb pcbs entries trace) {x : PCB} (hopen : x.err = false) :
    Sends (nextPcb + 1) (Function.update pcbs nextPcb x) entries trace := by
  have old : ∀ {q}, q < nextPcb → Function.update pcbs nextPcb x q = pcbs q :=
    fun hq => Function.update_of_ne (Nat.ne_of_lt hq) ..
  refine { h with errSet := ?_, erred := ?_, tcp := ?_, ends := ?_ }
  · intro p hp
    obtain ⟨hlt, herr⟩ := h.errSet p hp
    rw [old hlt]
    exact ⟨Nat.lt_succ_of_lt hlt, herr⟩
  · intro p hp herr
    rcases Nat.lt_succ_iff_lt_or_eq.mp hp with hlt | rfl
    · rw [old hlt] at herr
      exact h.erred p hlt herr
    · rw [Function.update_self, hopen] at herr
      cases herr
  · intro p w ret hp
    exact (h.tcp p w ret hp).mono Extends.newPcb
  · intro p w laddr raddr data hp
    obtain ⟨hlt, hends⟩ := h.ends p w laddr raddr data hp
    rw [old hlt]
    exact ⟨Nat.lt_succ_of_lt hlt, hends⟩

/-- A `Write` posts its buffer. -/
theorem post (h : Sends nextPcb pcbs entries trace) {p : PcbId} {w : WriteId} :
    Sends nextPcb pcbs (entries ++ [⟨p, w⟩]) (trace ++ [.enqueued p w]) := by
  constructor
  · intro q
    rw [select_snoc, select_snoc, pendingOn_append, h.order q]
    by_cases hq : p = q
    · subst hq
      simp [Event.enqueuedOn, Event.handledOn]
    · simp [Event.enqueuedOn, Event.handledOn, hq, pendingOn_of_ne hq]
  · intro q hq
    exact h.errSet q (by simpa using hq)
  · intro q hq herr
    exact List.mem_append_left _ (h.erred q hq herr)
  · intro q v ret hq
    exact h.tcp q v ret (by simpa using hq)
  · intro q v laddr raddr data hq
    exact h.ends q v laddr raddr data (by simpa using hq)
  · exact each_snoc.mpr ⟨h.guarded, nofun, nofun⟩

/-- `Send` finds `err` not set. -/
theorem pass (h : Sends nextPcb pcbs entries trace) {p : PcbId} {w : WriteId}
    (hopen : (pcbs p).err = false) : Sends nextPcb pcbs entries (trace ++ [.passed p w]) := by
  have hnever : .errSet p ∉ trace := by
    intro hp
    rw [(h.errSet p hp).2] at hopen
    cases hopen
  constructor
  · intro q
    rw [select_snoc, select_snoc]
    simpa [Event.enqueuedOn, Event.handledOn] using h.order q
  · intro q hq
    exact h.errSet q (by simpa using hq)
  · intro q hq herr
    exact List.mem_append_left _ (h.erred q hq herr)
  · intro q v ret hq
    exact h.tcp q v ret (by simpa using hq)
  · intro q v laddr raddr data hq
    exact h.ends q v laddr raddr data (by simpa using hq)
  · refine each_snoc.mpr ⟨h.guarded, ?_, nofun⟩
    rintro _ _ ⟨⟩
    exact hnever

/-- `Send` handles the oldest entry. -/
theorem handle {p : PcbId} {w : WriteId} (h : Sends nextPcb pcbs (⟨p, w⟩ :: entries) trace)
    (hguarded : Guarded trace ev) (hhandled : ∀ q, ev.handledOn q = if p = q then some w else none)
    (htcp : ∀ q v ret, ev = .charSend q v ret → Made nextPcb pcbs .tcp q := by nofun)
    (hends : ∀ q v laddr raddr data, ev = .udpCharSendto q v laddr raddr data →
      q < nextPcb ∧ (pcbs q).localEnd = laddr ∧ (pcbs q).remoteEnd = raddr := by nofun)
    (hposted : ∀ q, ev.enqueuedOn q = none := by intros; rfl)
    (herr : ∀ q, ev ≠ .errSet q := by nofun) : Sends nextPcb pcbs entries (trace ++ [ev]) := by
  constructor
  · intro q
    rw [select_snoc, select_snoc, hposted, hhandled, h.order q]
    by_cases hq : p = q
    · subst hq
      simp
    · simp [hq, pendingOn_of_ne hq]
  · intro q hq
    rcases List.mem_append.mp hq with hq | hq
    · exact h.errSet q hq
    · exact absurd (List.mem_singleton.mp hq).symm (herr q)
  · intro q hq hset
    exact List.mem_append_left _ (h.erred q hq hset)
  · intro q v ret hq
    rcases List.mem_append.mp hq with hq | hq
    · exact h.tcp q v ret hq
    · exact htcp q v ret (List.mem_singleton.mp hq).symm
  · intro q v laddr raddr data hq
    rcases List.mem_append.mp hq with hq | hq
    · exact h.ends q v laddr raddr data hq
    · exact hends q v laddr raddr data (List.mem_singleton.mp hq).symm
  · exact each_snoc.mpr ⟨h.guarded, hguarded⟩

end Sends

end

variable {cfg : Config} {s t : Sys} {o : Outcomes}

theorem CloseStep.inSends {who : Actor} {p : PcbId} {pc : ClosePc} {next : Option ClosePc}
    (hpos : inClose s.threads s.loop who = some (p, pc)) (h : CloseStep s who p pc t next)
    (hs : s.InSends) (hknown : s.InUse) : t.InSends := by
  cases h with
  | lock _ => exact hs.setPcb
  | setErr => exact hs.setErr (hknown.inClose_lt hpos)
  | closeWait _ _ => exact hs.setPcb
  | unlock => exact hs.setPcb
  | _ => exact hs

theorem LoopStep.inSends {pc : LoopPc} (hpc : s.loop = pc) (h : LoopStep cfg s o pc t)
    (hs : s.InSends) (hknown : s.InUse) : t.InSends := by
  have hs' : Sends s.nextPcb s.pcbs (pc.inHand ++ s.sendQueue.buf) s.trace := hpc ▸ hs
  have hok : pc.Ok s.nextPcb s.pcbs := hpc ▸ hknown.loop
  cases h with
  | creditClosed _ => exact hs'
  | credit _ => exact hs'.emit
  | @dropped p w herr =>
      refine hs'.handle ⟨nofun, ?_⟩ fun _ => rfl
      rintro _ _ ⟨⟩
      exact hs.erred p hok herr
  | passed herr _ => exact hs'.pass herr
  | sendEmpty _ => exact hs
  | udpSendEmpty _ => exact hs
  | @sendFailed p w es ret herr htype _ _ _ =>
      refine .handle hs'.setPcb ⟨nofun, nofun⟩ (fun _ => rfl) ?_
      rintro _ _ _ ⟨⟩
      exact Made.mono ⟨hok, htype⟩ (Extends.setPcb rfl)
  | @sendTcp p w es run herr htype _ _ _ _ _ =>
      refine .handle (.emit hs'.setPcb) ⟨nofun, nofun⟩ (fun _ => rfl) ?_
      rintro _ _ _ ⟨⟩
      exact Made.mono ⟨hok, htype⟩ (Extends.setPcb rfl)
  | sendUdp _ _ _ =>
      refine .emit (hs'.handle ⟨nofun, nofun⟩ (fun _ => rfl) (by nofun) ?_)
      rintro _ _ _ _ _ ⟨⟩
      exact ⟨hok.1, rfl, rfl⟩
  | sendUdpFailed _ _ _ =>
      refine hs'.handle ⟨nofun, nofun⟩ (fun _ => rfl) (by nofun) ?_
      rintro _ _ _ _ _ ⟨⟩
      exact ⟨hok.1, rfl, rfl⟩
  | post _ => exact hs'
  | netif => exact hs'.emit
  | netifNone => exact hs'
  | leave => exact hs'
  | target => exact hs'
  | pushClosed _ => exact hs
  | push _ => exact .emit hs'.emit
  | pushUdp _ => exact .emit hs'.emit
  | doneClosed _ => exact hs
  | done _ => exact hs'.setPcb
  | @close p pc pc' a e k s' hclose =>
      have hpos : inClose s.threads s.loop .loop = some (p, pc) := by
        rw [hpc]
        rfl
      have hclosed := hclose.inSends hpos hs hknown
      rw [Sys.InSends, (hclose.inUse hknown).2.2.2, hpc] at hclosed
      exact hclosed
  | closed => exact .emit (.emit (.notify cfg.event hs'.setPcb))

theorem CallbackStep.inSends {cb : Callback} (hloop : s.loop = .lwip)
    (h : CallbackStep cfg s o cb t) (hs : s.InSends) : t.InSends := by
  have hs' : Sends s.nextPcb s.pcbs s.sendQueue.buf s.trace := by
    have := hs
    rwa [Sys.InSends, hloop] at this
  have stay : ∀ {u : Sys}, u.loop = s.loop → u.sendQueue = s.sendQueue →
      Sends u.nextPcb u.pcbs s.sendQueue.buf u.trace → u.InSends := by
    intro u hu hq h
    rw [Sys.InSends, hu, hloop, hq]
    exact h
  cases h with
  | ignored => exact hs
  | accept _ _ => exact stay rfl rfl (.emit (.notify cfg.event (.newPcb hs'.emit rfl)))
  | assertion => exact hs
  | recvClosed _ _ _ _ _ _ => exact .emit (.emit hs'.emit)
  | recvEmpty _ _ _ _ _ _ => exact stay rfl rfl (.emit hs'.emit)
  | recv _ _ _ _ _ _ _ => exact .emit hs'.emit
  | fin _ _ _ _ _ => exact .emit hs'.emit
  | err _ _ _ _ _ => exact .emit (.emit hs'.emit)
  | sentMore _ _ _ _ _ _ _ => exact .emit hs'.emit
  | sentIdle _ _ _ _ _ _ _ => exact hs'.emit
  | sent _ _ _ _ _ _ _ _ => exact .emit hs'.setPcb
  | pollMore _ _ _ _ _ _ _ => exact hs'.emit
  | udpEmpty => exact hs
  | udpKnown _ _ => exact hs'
  | udpNew _ _ => exact .notify cfg.event (hs'.newPcb rfl)

theorem Step.inSends {a : Act} (h : Step cfg s a t) (hs : s.InSends) (hknown : s.InUse) :
    t.InSends := by
  have post : ∀ {p w q}, s.sendQueue.send ⟨p, w⟩ = .done q →
      Sends s.nextPcb s.pcbs (s.loop.inHand ++ q.buf) (s.trace ++ [.enqueued p w]) := by
    intro p w q hsend
    rw [(Chan.send_done hsend).2.2.1, ← List.append_assoc]
    exact hs.post
  have select : ∀ {pc : LoopPc}, s.loop = .select → pc.inHand = [] →
      Sends s.nextPcb s.pcbs (pc.inHand ++ s.sendQueue.buf) s.trace := by
    intro pc hloop hpc
    have := hs
    rw [Sys.InSends, hloop] at this
    rw [hpc]
    exact this
  cases h with
  | callClose _ _ => exact hs.emit
  | read _ h =>
      cases h with
      | closed _ => exact hs.emit
      | datagram _ _ _ _ => exact hs.emit
      | errRet _ => exact hs.emit
      | nilRet _ => exact hs.emit
      | credit _ => exact hs.emit
      | _ => exact hs
  | write _ h =>
      cases h with
      | empty _ => exact hs.emit
      | lock _ => exact .emit hs.setPcb
      | enqueue hsend => exact post hsend
      | wait _ => exact .emit hs.setPcb
      | unlock => exact hs.setPcb
      | post hsend => exact post hsend
      | ret => exact hs.emit
      | _ => exact hs
  | @close th p pc pc' s' hth h =>
      have hpos : inClose s.threads s.loop (.goroutine th) = some (p, pc) := by
        rw [inClose, hth]
        rfl
      have hclosed := h.inSends hpos hs hknown
      exact hclosed
  | closed _ => exact hs.setPcb
  | intercept _ h =>
      cases h with
      | lock _ => exact hs.setPcb
      | twice _ => exact hs.setPcb
      | set => exact hs.setPcb
      | swap => exact hs.setPcb
      | unlock => exact hs.setPcb
      | _ => exact hs
  | frame _ => exact hs.emit
  | takeRecved hloop _ => exact select hloop rfl
  | takeClose _ _ _ => exact hs.emit
  | takeCloseUdp _ _ _ => exact hs.emit
  | takeSend hloop hrecv =>
      have := hs
      rw [Sys.InSends, hloop, (Chan.recv_some hrecv).1] at this
      exact this
  | takeInput hloop _ => exact select hloop rfl
  | loop hpc h => exact h.inSends hpc hs hknown
  | callback hloop h => exact h.inSends hloop hs
  | _ => exact hs

theorem reachable_inSends (h : (bridge cfg).Reachable s) : s.InSends := by
  refine h.invariant_of reachable_inOrder ?_ ?_
  · exact ⟨fun _ => rfl, nofun, fun p hp => absurd hp (Nat.not_lt_zero p), nofun, nofun, each_nil _⟩
  · intro s a t hs _ hsends hstep
    exact (step_cases hs hstep).inSends hsends hs.known

/-! ### Between the test and the call -/

/-- The datagrams of `p` that have passed the test were handed to `cs_udp_char_sendto`, but
for the one the loop is at. -/
def Sys.Passes (s : Sys) (p : PcbId) : Prop :=
  select (Event.passedOn p) s.trace = select (Event.sentOn p) s.trace ++ s.loop.passing p

theorem passes_iff {p : PcbId} {pc : LoopPc} (hpc : s.loop = pc) :
    s.Passes p ↔
      select (Event.passedOn p) s.trace = select (Event.sentOn p) s.trace ++ pc.passing p := by
  rw [Sys.Passes, hpc]

/-- A goroutine sends no datagram. -/
theorem LoopKept.passes {p : PcbId} (h : LoopKept Event.ofGoroutine s t) :
    t.Passes p ↔ s.Passes p := by
  rw [Sys.Passes, Sys.Passes, h.loop, h.trace.select_eq ?_, h.trace.select_eq ?_]
  all_goals
    intro ev hev
    cases ev <;> first | rfl | cases hev

theorem LoopStep.passes {p : PcbId} {pc : LoopPc} (hpc : s.loop = pc) (h : LoopStep cfg s o pc t)
    (hs : s.Passes p) : t.Passes p := by
  rw [passes_iff hpc] at hs
  cases h with
  | @passed q w herr htype =>
      simp only [LoopPc.passing, List.append_nil] at hs
      by_cases hq : q = p <;>
        simp [Sys.Passes, List.filterMap_cons, Event.passedOn, Event.sentOn, LoopPc.passing, hs, hq]
  | @sendUdp q w htype hdata halloc =>
      by_cases hq : q = p <;>
        simp_all [Sys.Passes, List.filterMap_cons, Event.passedOn, Event.sentOn, LoopPc.passing]
  | @sendUdpFailed q w htype hdata halloc =>
      by_cases hq : q = p <;>
        simp_all [Sys.Passes, List.filterMap_cons, Event.passedOn, Event.sentOn, LoopPc.passing]
  | close h =>
      have hkept := h.loopKept.widen
      have hpassed := hkept.passes.mpr ((passes_iff hpc).mpr hs)
      exact (passes_iff (hkept.loop.trans hpc)).mp hpassed
  | closed =>
      cases hevent : cfg.event <;>
        simpa [Sys.Passes, List.filterMap_cons, Event.passedOn, Event.sentOn,
          LoopPc.passing] using hs
  | _ =>
      simpa [Sys.Passes, hpc, List.filterMap_cons, Event.passedOn, Event.sentOn,
        LoopPc.passing] using hs

/-- A callback begins in lwIP, where the loop has no entry. -/
theorem CallbackStep.passes {p : PcbId} {cb : Callback} (hloop : s.loop = .lwip)
    (h : CallbackStep cfg s o cb t) (hs : s.Passes p) : t.Passes p := by
  have hpassing : t.loop.passing p = [] := by
    cases h <;> first | rfl | (rw [hloop]; rfl)
  have hs' := (passes_iff hloop).mp hs
  rw [Sys.Passes, hpassing, h.told.select_eq ?_, h.told.select_eq ?_]
  · exact hs'
  all_goals
    intro ev hev
    cases ev <;> first | rfl | cases hev

theorem Step.passes {p : PcbId} {a : Act} (h : Step cfg s a t) (hs : s.Passes p) :
    t.Passes p := by
  by_cases ha : a.ofGoroutine = true
  · exact (h.loopKept ha).passes.mpr hs
  cases h with
  | takeRecved hloop _ => simpa [Sys.Passes, hloop, LoopPc.passing] using hs
  | takeSend hloop _ => simpa [Sys.Passes, hloop, LoopPc.passing] using hs
  | takeInput hloop _ => simpa [Sys.Passes, hloop, LoopPc.passing] using hs
  | loop hpc h => exact h.passes hpc hs
  | callback hloop h => exact h.passes hloop hs
  | _ =>
      first
      | exact absurd rfl ha
      | simpa [Sys.Passes, List.filterMap_cons, Event.passedOn, Event.sentOn] using hs

theorem reachable_passes (h : (bridge cfg).Reachable s) (p : PcbId) : s.Passes p := by
  refine h.invariant_of (I := fun s => s.Passes p) reachable_inOrder rfl ?_
  intro s a t hs _ hpasses hstep
  exact (step_cases hs hstep).passes hpasses

/-! ### Who sets `err` -/

/-- Only calls of `Close` set the `err` of a PCB that is not a TCP PCB. -/
structure Closers (nextPcb : PcbId) (pcbs : PcbId → PCB) (threads : Tid → Thread)
    (trace : List Event) : Prop where
  calls : ∀ t p pc, threads t = .close p pc → .closeCalled t p ∈ trace
  called : ∀ p, .errSet p ∈ trace →
    Made nextPcb pcbs .tcp p ∨ ∃ t, .closeCalled t p ∈ trace

/-- `Closers` of a state of the system. -/
abbrev Sys.InClosers (s : Sys) : Prop := Closers s.nextPcb s.pcbs s.threads s.trace

namespace Closers

variable {nextPcb nextPcb' : PcbId} {pcbs pcbs' : PcbId → PCB} {threads : Tid → Thread}
variable {trace trace' : List Event}

/-- A step that sets no `err`. -/
theorem mono (h : Closers nextPcb pcbs threads trace)
    (ext : Extends nextPcb nextPcb' pcbs pcbs') (grows : trace ⊆ trace')
    (hset : ∀ p, .errSet p ∈ trace' → .errSet p ∈ trace) :
    Closers nextPcb' pcbs' threads trace' where
  calls t p pc ht := grows (h.calls t p pc ht)
  called p hp := by
    rcases h.called p (hset p hp) with htcp | ⟨t, ht⟩
    · exact Or.inl (htcp.mono ext)
    · exact Or.inr ⟨t, grows ht⟩

theorem emit (h : Closers nextPcb pcbs threads trace) {ev : Event}
    (hev : ∀ p, .errSet p ≠ ev := by nofun) : Closers nextPcb pcbs threads (trace ++ [ev]) := by
  refine h.mono Extends.refl (List.subset_append_left _ _) ?_
  intro p hp
  rcases List.mem_append.mp hp with hp | hp
  · exact hp
  · exact absurd (List.mem_singleton.mp hp) (hev p)

/-- `if Event != nil { Event.… }` -/
theorem notify (event : Bool) (h : Closers nextPcb pcbs threads trace) {ev : Event}
    (hev : ∀ p, .errSet p ≠ ev := by nofun) :
    Closers nextPcb pcbs threads (trace ++ if event then [ev] else []) :=
  snoc_if (P := Closers nextPcb pcbs threads) event h (h.emit hev)

theorem setPcb (h : Closers nextPcb pcbs threads trace) {p : PcbId} {x : PCB}
    (htype : x.type = (pcbs p).type := by rfl) :
    Closers nextPcb (Function.update pcbs p x) threads trace :=
  h.mono (Extends.setPcb htype) (List.Subset.refl _) fun _ hp => hp

theorem newPcb (h : Closers nextPcb pcbs threads trace) {x : PCB} :
    Closers (nextPcb + 1) (Function.update pcbs nextPcb x) threads trace :=
  h.mono Extends.newPcb (List.Subset.refl _) fun _ hp => hp

theorem setThread (h : Closers nextPcb pcbs threads trace) {t : Tid} {th : Thread}
    (hth : ∀ p pc, th = .close p pc → .closeCalled t p ∈ trace := by nofun) :
    Closers nextPcb pcbs (Function.update threads t th) trace := by
  refine { h with calls := ?_ }
  intro u p pc hu
  by_cases hut : u = t
  · subst hut
    rw [Function.update_self] at hu
    exact hth p pc hu
  · rw [Function.update_of_ne hut] at hu
    exact h.calls u p pc hu

end Closers

theorem CloseStep.inClosers {who : Actor} {p : PcbId} {pc : ClosePc} {next : Option ClosePc}
    (h : CloseStep s who p pc t next) (hs : s.InClosers)
    (hcalled : Made s.nextPcb s.pcbs .tcp p ∨ ∃ u, .closeCalled u p ∈ s.trace) :
    t.InClosers := by
  cases h with
  | lock _ => exact hs.setPcb
  | setErr =>
      have hs' : Closers s.nextPcb (Function.update s.pcbs p { s.pcbs p with err := true })
          s.threads s.trace := hs.setPcb
      refine ⟨fun u q pc hu => List.mem_append_left _ (hs.calls u q pc hu), ?_⟩
      intro q hq
      have hq' : Made s.nextPcb s.pcbs .tcp q ∨ ∃ u, .closeCalled u q ∈ s.trace := by
        rcases List.mem_append.mp hq with hq | hq
        · exact hs.called q hq
        · obtain ⟨rfl⟩ := List.mem_singleton.mp hq
          exact hcalled
      rcases hq' with htcp | ⟨u, hu⟩
      · exact Or.inl (htcp.mono (Extends.setPcb rfl))
      · exact Or.inr ⟨u, List.mem_append_left _ hu⟩
  | closeWait _ _ => exact hs.setPcb
  | unlock => exact hs.setPcb
  | _ => exact hs

theorem LoopStep.inClosers {pc : LoopPc} (hpc : s.loop = pc) (h : LoopStep cfg s o pc t)
    (hs : s.InClosers) (hknown : s.InUse) : t.InClosers := by
  have hok : pc.Ok s.nextPcb s.pcbs := hpc ▸ hknown.loop
  cases h with
  | credit _ => exact hs.emit
  | dropped _ => exact hs.emit
  | passed _ _ => exact hs.emit
  | sendFailed _ _ _ _ _ => exact .emit hs.setPcb
  | sendTcp _ _ _ _ _ _ _ => exact .emit (.emit hs.setPcb)
  | sendUdp _ _ _ => exact .emit hs.emit
  | sendUdpFailed _ _ _ => exact hs.emit
  | netif => exact hs.emit
  | push _ => exact .emit hs.emit
  | pushUdp _ => exact .emit hs.emit
  | done _ => exact hs.setPcb
  | close hclose => exact hclose.inClosers hs (Or.inl hok)
  | closed => exact .emit (.emit (.notify cfg.event hs.setPcb))
  | _ => exact hs

theorem CallbackStep.inClosers {cb : Callback} (h : CallbackStep cfg s o cb t)
    (hs : s.InClosers) : t.InClosers := by
  cases h with
  | accept _ _ => exact .emit (.notify cfg.event (.emit hs.newPcb))
  | recvClosed _ _ _ _ _ _ => exact .emit (.emit hs.emit)
  | recvEmpty _ _ _ _ _ _ => exact .emit hs.emit
  | recv _ _ _ _ _ _ _ => exact .emit hs.emit
  | fin _ _ _ _ _ => exact .emit hs.emit
  | err _ _ _ _ _ => exact .emit (.emit hs.emit)
  | sentMore _ _ _ _ _ _ _ => exact .emit hs.emit
  | sentIdle _ _ _ _ _ _ _ => exact hs.emit
  | sent _ _ _ _ _ _ _ _ => exact .emit hs.setPcb
  | pollMore _ _ _ _ _ _ _ => exact hs.emit
  | udpNew _ _ => exact .notify cfg.event hs.newPcb
  | _ => exact hs

theorem Step.inClosers {a : Act} (h : Step cfg s a t) (hs : s.InClosers) (hknown : s.InUse) :
    t.InClosers := by
  cases h with
  | callRead _ _ => exact hs.setThread
  | callWrite _ _ => exact hs.setThread
  | callClose _ _ =>
      refine .setThread hs.emit ?_
      rintro _ _ ⟨⟩
      exact List.mem_append_right _ (List.mem_singleton_self _)
  | callIntercept _ _ => exact hs.setThread
  | read _ h =>
      cases h with
      | intercepted _ => exact hs
      | closed _ => exact .emit hs.setThread
      | tooSmall _ _ => exact hs
      | datagram _ _ _ _ => exact .emit hs.setThread
      | errRet _ => exact .emit hs.setThread
      | nilRet _ => exact .emit hs.setThread
      | credit _ => exact .emit hs.setThread
      | _ => exact hs.setThread
  | write _ h =>
      cases h with
      | empty _ => exact .emit hs.setThread
      | lock _ => exact .emit (.setThread hs.setPcb)
      | enqueue _ => exact .emit hs.setThread
      | wait _ => exact .emit (.setThread hs.setPcb)
      | unlock => exact .setThread hs.setPcb
      | post _ => exact .emit hs.setThread
      | ret => exact .emit hs.setThread
      | _ => exact hs.setThread
  | @close th p pc pc' s' hth h =>
      have hclosed := h.inClosers hs (Or.inr ⟨th, hs.calls th p pc hth⟩)
      refine hclosed.setThread ?_
      rintro _ _ ⟨⟩
      refine hclosed.calls th p pc ?_
      cases h <;> exact hth
  | closed _ => exact .setThread hs.setPcb
  | closePost _ _ => exact hs.setThread
  | intercept _ h =>
      cases h with
      | lock _ => exact .setThread hs.setPcb
      | twice _ => exact .setThread hs.setPcb
      | set => exact .setThread hs.setPcb
      | closedOld _ => exact hs
      | swap => exact .setThread hs.setPcb
      | unlock => exact .setThread hs.setPcb
      | _ => exact hs.setThread
  | frame _ => exact hs.emit
  | takeClose _ _ _ => exact hs.emit
  | takeCloseUdp _ _ _ => exact hs.emit
  | loop hpc h => exact h.inClosers hpc hs hknown
  | callback _ h => exact h.inClosers hs
  | _ => exact hs

theorem reachable_inClosers (h : (bridge cfg).Reachable s) : s.InClosers := by
  refine h.invariant_of reachable_inOrder ⟨nofun, nofun⟩ ?_
  intro s a t hs _ hclosers hstep
  exact (step_cases hs hstep).inClosers hclosers hs.known

/-! ### The bytes of a datagram -/

/-- An action other than a store to the buffer `w` after its `Write`. -/
def Act.spares (w : WriteId) : Act → Prop
  | .reuse v _ => v ≠ w
  | _ => True

/-- What was passed on and returned of the buffer `w` is what it holds. -/
structure Kept (bufs : WriteId → Buffer) (w : WriteId) (trace : List Event) : Prop where
  sent : ∀ p laddr raddr data, .udpCharSendto p w laddr raddr data ∈ trace →
    (bufs w).data = data
  returned : ∀ p data, .writeRet p w data true ∈ trace → (bufs w).data = data

/-- An event that shows the bytes of a buffer. -/
def Event.ofBytes : Event → Bool
  | .udpCharSendto .. | .writeRet .. => true
  | _ => false

namespace Kept

variable {bufs : WriteId → Buffer} {w v : WriteId} {trace : List Event} {ev : Event}

theorem emit (h : Kept bufs w trace) (hev : ev.ofBytes = false := by rfl) :
    Kept bufs w (trace ++ [ev]) := by
  have old : ∀ {x : Event}, x.ofBytes = true → x ∈ trace ++ [ev] → x ∈ trace := by
    intro x hx hmem
    rcases List.mem_append.mp hmem with hmem | hmem
    · exact hmem
    · rw [List.mem_singleton.mp hmem, hev] at hx
      cases hx
  constructor
  · intro p laddr raddr data hp
    exact h.sent p laddr raddr data (old rfl hp)
  · intro p data hp
    exact h.returned p data (old rfl hp)

/-- `if Event != nil { Event.… }` -/
theorem notify (event : Bool) (h : Kept bufs w trace) (hev : ev.ofBytes = false := by rfl) :
    Kept bufs w (trace ++ if event then [ev] else []) :=
  snoc_if (P := Kept bufs w) event h (h.emit hev)

theorem send (h : Kept bufs w trace) {p : PcbId} {laddr raddr : Endpoint} :
    Kept bufs w (trace ++ [.udpCharSendto p v laddr raddr (bufs v).data]) := by
  constructor
  · intro q laddr' raddr' data hq
    rcases List.mem_append.mp hq with hq | hq
    · exact h.sent q laddr' raddr' data hq
    · cases List.mem_singleton.mp hq
      rfl
  · intro q data hq
    exact h.returned q data (by simpa using hq)

theorem ret (h : Kept bufs w trace) {p : PcbId} {ok : Bool} :
    Kept bufs w (trace ++ [.writeRet p v (bufs v).data ok]) := by
  constructor
  · intro q laddr raddr data hq
    exact h.sent q laddr raddr data (by simpa using hq)
  · intro q data hq
    rcases List.mem_append.mp hq with hq | hq
    · exact h.returned q data hq
    · cases List.mem_singleton.mp hq
      rfl

theorem setBuf (h : Kept bufs w trace) {b : Buffer}
    (hb : v = w → b.data = (bufs w).data := by rintro rfl; rfl) :
    Kept (Function.update bufs v b) w trace := by
  have same : (Function.update bufs v b w).data = (bufs w).data := by
    by_cases hv : w = v
    · subst hv
      rw [Function.update_self, hb rfl]
    · rw [Function.update_of_ne hv]
  constructor
  · simpa only [same] using h.sent
  · simpa only [same] using h.returned

end Kept

/-- A datagram handled or returned was posted, so its buffer is not a new one. -/
theorem lt_of_sent (hsends : s.InSends) (hwrites : s.WritesOk) {p : PcbId} {w : WriteId}
    {ev : Event} (hev : ev ∈ s.trace) (hw : ev.handledOn p = some w) : w < s.nextWrite := by
  have hhandled : w ∈ select (Event.handledOn p) s.trace := List.mem_filterMap.mpr ⟨ev, hev, hw⟩
  have hposted : w ∈ select (Event.enqueuedOn p) s.trace := by
    rw [hsends.order p]
    exact List.mem_append_left _ hhandled
  exact (hwrites.posted p w (mem_enqueuedOn.mp hposted)).1

/-- The methods other than `Write`. -/
theorem LoopKept.kept {w : WriteId} (h : LoopKept Event.ofReadClose s t)
    (hwrites : WritesKept s t) (hs : Kept s.bufs w s.trace) : Kept t.bufs w t.trace := by
  rw [hwrites.bufs]
  refine h.trace.ind hs fun tr ev hev hs => ?_
  cases ev <;> first | contradiction | exact hs.emit

theorem Step.kept {a : Act} {w : WriteId} (h : Step cfg s a t) (hs : Kept s.bufs w s.trace)
    (hspares : a.spares w) (hsends : s.InSends) (hwrites : s.WritesOk) :
    Kept t.bufs w t.trace := by
  cases h with
  | callWrite _ _ =>
      have hold : ∀ {x : Bytes}, w < s.nextWrite →
          (Function.update s.bufs s.nextWrite ⟨x, true⟩ w).data = (s.bufs w).data := by
        intro x hlt
        rw [Function.update_of_ne (Nat.ne_of_lt hlt)]
      constructor
      · intro p laddr raddr data hp
        rw [hold (lt_of_sent hsends hwrites hp (p := p) (by simp [Event.handledOn]))]
        exact hs.sent p laddr raddr data hp
      · intro p data hp
        rw [hold (hwrites.posted p w (hwrites.returned p w data hp)).1]
        exact hs.returned p data hp
  | callClose _ _ => exact hs.emit
  | read hth h => exact h.loopKept.kept (h.writesKept hth) hs
  | write _ h =>
      cases h with
      | empty _ => exact .setBuf hs.ret
      | lock _ => exact hs.emit
      | enqueue _ => exact hs.emit
      | wait _ => exact hs.emit
      | post _ => exact hs.emit
      | ret => exact .setBuf hs.ret
      | _ => exact hs
  | close _ h => exact h.loopKept.kept h.writesKept hs
  | intercept hth h => exact h.loopKept.kept (h.writesKept hth) hs
  | reuse _ _ => exact hs.setBuf fun hw => absurd hw hspares
  | frame _ => exact hs.emit
  | takeClose _ _ _ => exact hs.emit
  | takeCloseUdp _ _ _ => exact hs.emit
  | loop _ h =>
      cases h with
      | credit _ => exact hs.emit
      | dropped _ => exact hs.emit
      | passed _ _ => exact hs.emit
      | sendFailed _ _ _ _ _ => exact hs.emit
      | sendTcp _ _ _ _ _ _ _ => exact .emit hs.emit
      | sendUdp _ _ _ => exact .emit hs.send
      | sendUdpFailed _ _ _ => exact hs.send
      | netif => exact hs.emit
      | push _ => exact .emit hs.emit
      | pushUdp _ => exact .emit hs.emit
      | close h => exact h.loopKept.kept h.writesKept hs
      | closed => exact .emit (.emit (.notify cfg.event hs))
      | _ => exact hs
  | callback _ h =>
      rw [h.callsKept.bufs]
      refine h.told.ind hs fun tr ev hev hs => ?_
      cases ev <;> first | contradiction | exact hs.emit
  | _ => exact hs

theorem run_kept {tr : List (Sys × Act)} (hrun : (bridge cfg).Run tr s) {w : WriteId}
    (hspares : Machine.Meets (fun _ a => a.spares w) tr) : Kept s.bufs w s.trace := by
  refine hrun.invariant_under (I := fun s => Kept s.bufs w s.trace) hspares
    (fun h => And.intro (reachable_inOrder h)
      (And.intro (reachable_inSends h) (reachable_writesOk h)))
    ⟨nofun, nofun⟩ ?_
  intro s a t hs _ hkept hspares hstep
  exact (step_cases hs.1 hstep).kept hkept hspares hs.2.1 hs.2.2

/-! ### Delivery -/

/-- What becomes of the datagrams written to the UDP PCB `p` in the run `tr`. -/
structure Sys.UdpSends (s : Sys) (tr : List (Sys × Act)) (p : PcbId) : Prop where
  /-- handled once each, in the order of the posts -/
  order : select (Event.enqueuedOn p) s.trace =
    select (Event.handledOn p) s.trace ++ pendingOn p (s.loop.inHand ++ s.sendQueue.buf)
  once : (select (Event.enqueuedOn p) s.trace).Nodup
  posted : ∀ w data, .writeRet p w data true ∈ s.trace → w ∈ select (Event.enqueuedOn p) s.trace
  /-- handled is passed on or dropped -/
  kinds : ∀ w ret, .charSend p w ret ∉ s.trace
  /-- passed on is what has passed the test, also if `err` is set by then -/
  passed : select (Event.passedOn p) s.trace =
    select (Event.sentOn p) s.trace ++ s.loop.passing p
  unset : ∀ before w after, s.trace = before ++ .passed p w :: after → .errSet p ∉ before
  ends : ∀ w laddr raddr data, .udpCharSendto p w laddr raddr data ∈ s.trace →
    laddr = (s.pcbs p).localEnd ∧ raddr = (s.pcbs p).remoteEnd
  bytes : ∀ w, Machine.Meets (fun _ a => a.spares w) tr → ∀ laddr raddr data data',
    .udpCharSendto p w laddr raddr data ∈ s.trace → .writeRet p w data' true ∈ s.trace →
      data = data'
  dropped : ∀ before w after, s.trace = before ++ .dropped p w :: after → .errSet p ∈ before
  closed : .errSet p ∈ s.trace → ∃ t, .closeCalled t p ∈ s.trace

/-- The datagrams of a UDP PCB are handled in order and once each; one is passed on
with the endpoints of its PCB if `Send` finds `err` not set when its turn comes, and
dropped otherwise. -/
theorem run_udpSends {tr : List (Sys × Act)} (hrun : (bridge cfg).Run tr s) {p : PcbId}
    (hp : Made s.nextPcb s.pcbs .udp p) : s.UdpSends tr p := by
  have hsends := reachable_inSends hrun.reachable
  have hwrites := reachable_writesOk hrun.reachable
  have htype : ∀ {q}, Made s.nextPcb s.pcbs .tcp q → q ≠ p := by
    rintro q htcp rfl
    have := htcp.2
    rw [hp.2] at this
    cases this
  constructor
  · exact hsends.order p
  · exact hwrites.once.sublist (enqueuedOn_sublist p s.trace)
  · intro w data hret
    exact mem_enqueuedOn.mpr (hwrites.returned p w data hret)
  · intro w ret hsend
    exact htype (hsends.tcp p w ret hsend) rfl
  · exact reachable_passes hrun.reachable p
  · intro before w after htrace
    exact (hsends.guarded _ _ _ htrace).1 p w rfl
  · intro w laddr raddr data hsent
    obtain ⟨_, hlocal, hremote⟩ := hsends.ends p w laddr raddr data hsent
    exact ⟨hlocal.symm, hremote.symm⟩
  · intro w hspares laddr raddr data data' hsent hret
    have hkept := run_kept hrun hspares
    exact (hkept.sent p laddr raddr data hsent).symm.trans (hkept.returned p data' hret)
  · intro before w after htrace
    exact (hsends.guarded _ _ _ htrace).2 p w rfl
  · intro herr
    rcases (reachable_inClosers hrun.reachable).called p herr with htcp | hcalled
    · exact absurd rfl (htype htcp)
    · exact hcalled

namespace Schedule

/-- A datagram opens the PCB 0, and the loop is back at the select. -/
def udpOpen : List Act :=
  enterLwip ++ [.callback (.udp ⟨.v4 1, 4000⟩ ⟨.v4 2, 53⟩ (some [1])) fine, .loop fine, .loop fine,
    .loop fine]

/-- The goroutine 0 writes a datagram, and `Write` returns. -/
def udpWrite (data : Bytes) : List Act :=
  [.call 0 (.write 0 data), .go 0, .go 0, .go 0]

end Schedule

/-- A datagram is passed on. -/
theorem run_udpSends_open : ∃ tr s, (bridge Schedule.config).Run tr s ∧
    s.UdpSends tr 0 ∧ .udpCharSendto 0 0 ⟨.v4 2, 53⟩ ⟨.v4 1, 4000⟩ [7] ∈ s.trace := by
  obtain ⟨tr, s, hrun, _, htest⟩ := Machine.exists_run_of_exec (bridge Schedule.config)
    (fun _ _ => true)
    (Schedule.udpOpen ++ Schedule.udpWrite [7] ++
      [.take .send Schedule.fine, .loop Schedule.fine, .loop Schedule.fine])
    (fun s => 0 < s.nextPcb ∧ (s.pcbs 0).type = .udp ∧
      .udpCharSendto 0 0 ⟨.v4 2, 53⟩ ⟨.v4 1, 4000⟩ [7] ∈ s.trace) (by decide)
  obtain ⟨hlt, htype, hsent⟩ := of_decide_eq_true htest
  exact ⟨tr, s, hrun, run_udpSends hrun ⟨hlt, htype⟩, hsent⟩

/-- `Close` follows a `Write` that has returned, and the datagram is not passed on
though nothing is left to do. -/
theorem dropped_after_close : ∃ s before after, (bridge Schedule.config).Reachable s ∧
    s.trace = before ++ .closeCalled 0 0 :: after ∧ .writeRet 0 0 [7] true ∈ before ∧
    pendingOn 0 (s.loop.inHand ++ s.sendQueue.buf) = [] ∧
    ∀ laddr raddr data, .udpCharSendto 0 0 laddr raddr data ∉ s.trace := by
  obtain ⟨tr, s, hrun, _, htest⟩ := Machine.exists_run_of_exec (bridge Schedule.config)
    (fun _ _ => true)
    (Schedule.udpOpen ++ Schedule.udpWrite [7] ++ [.call 0 (.close 0), .go 0, .go 0, .go 0,
      .take .send Schedule.fine, .loop Schedule.fine])
    (fun s => s.trace = s.trace.take 7 ++ .closeCalled 0 0 :: s.trace.drop 8 ∧
      .writeRet 0 0 [7] true ∈ s.trace.take 7 ∧
      pendingOn 0 (s.loop.inHand ++ s.sendQueue.buf) = [] ∧ s.trace.all fun ev => match ev with
        | .udpCharSendto .. => false
        | _ => true) (by decide)
  obtain ⟨htrace, hret, hnone, hall⟩ := of_decide_eq_true htest
  refine ⟨s, s.trace.take 7, s.trace.drop 8, hrun.reachable, htrace, hret, hnone, ?_⟩
  intro laddr raddr data hsent
  exact absurd (List.all_eq_true.mp hall _ hsent) Bool.false_ne_true

end LwipCs
