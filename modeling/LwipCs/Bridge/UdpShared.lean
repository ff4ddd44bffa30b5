import LwipCs.Bridge.Landed
import LwipCs.Bridge.ReadBound
import LwipCs.Bridge.UdpFlows
import LwipCs.Lwip.UdpRaw

/-!
# One UDP pcb for all flows

The local address of the pcb is replaced twice: by `udp_input` around the receive
callback, and by `cs_udp_char_sendto` around a send. Both put back what they found, and
neither runs inside the other, so between two steps of the loop it is the address the
pcb was bound to.

The C side of a send is run here statement by statement, with any answers of lwIP; the
rest of the system is the bridge.
-/

namespace LwipCs

open Interleave

/-- What `udp_bind(npcb, IP_ANY_TYPE, 7)` stores. -/
def udpBound : UdpPcb := ⟨.v4 0, 7⟩

/-- The endpoints of a datagram queued on `p`. -/
def Event.datagramOn (p : PcbId) : Event → Option FlowEnds
  | .udpQueued q src dst _ => if q = p then some (src, dst) else none
  | _ => none

/-! ### The pcb between datagrams -/

/-- The local address of the pcb is away from `udpBound` only while a datagram is
handled; the handler keeps what it has to put back. -/
structure Borrowed (loop : LoopPc) (upcb : UdpPcb) (panic : Option Panic) : Prop where
  back : panic = none → loop.inDatagram = false → upcb = udpBound
  selecting : loop = .select → upcb = udpBound
  old : ∀ p data src dst old target, loop = .push p data (.udp src dst old) target → old = udpBound

/-- `Borrowed` of a state of the system. -/
abbrev Sys.InBorrowed (s : Sys) : Prop := Borrowed s.loop s.upcb s.panic

section

variable {loop : LoopPc} {upcb : UdpPcb} {panic : Option Panic}

namespace Borrowed

theorem crash (h : Borrowed loop upcb none) (panic : Option Panic) : Borrowed loop upcb panic :=
  { h with back := fun _ hloop => h.back rfl hloop }

/-- The loop moves outside the handlers of datagrams. -/
theorem goto (h : Borrowed loop upcb none) {pc : LoopPc} (hloop : loop.inDatagram = false := by rfl)
    (hpc : pc.inDatagram = false := by rfl) : Borrowed pc upcb panic := by
  refine ⟨fun _ _ => h.back rfl hloop, fun _ => h.back rfl hloop, ?_⟩
  rintro p data src dst old target rfl
  cases hpc

/-- `udp_input` stores the destination and keeps the old address. -/
theorem store (h : Borrowed .lwip upcb none) {p : PcbId} {data : Bytes} {src dst : Endpoint} :
    Borrowed (.push p data (.udp src dst upcb) none) dst panic := by
  refine ⟨?_, nofun, ?_⟩
  · intro _ hloop
    cases hloop
  · rintro _ _ _ _ _ _ ⟨⟩
    exact h.back rfl rfl

theorem target {p : PcbId} {data : Bytes} {ctx : PushCtx} {r : RecvChan}
    (h : Borrowed (.push p data ctx none) upcb none) :
    Borrowed (.push p data ctx (some r)) upcb panic := by
  refine ⟨?_, nofun, ?_⟩
  · intro _ hloop
    refine h.back rfl ?_
    cases ctx with
    | tcp k => rfl
    | udp => cases hloop
  · rintro _ _ src dst old _ ⟨⟩
    exact h.old p data src dst old none rfl

/-- After the callback `udp_input` puts the old address back. -/
theorem restore {p : PcbId} {data : Bytes} {src dst : Endpoint} {old : UdpPcb}
    {target : Option RecvChan} (h : Borrowed (.push p data (.udp src dst old) target) upcb none) :
    Borrowed .lwip old panic := by
  have hold := h.old p data src dst old target rfl
  refine ⟨fun _ _ => hold, fun _ => hold, ?_⟩
  rintro _ _ _ _ _ _ ⟨⟩

end Borrowed

end

/-! ### The datagram a PCB was made for -/

/-- The first datagram queued on a UDP PCB has its endpoints; before that the loop is
about to queue it. -/
structure FirstOn (nextPcb : PcbId) (pcbs : PcbId → PCB) (loop : LoopPc) (trace : List Event) :
    Prop where
  first : ∀ p, Made nextPcb pcbs .udp p →
    (select (Event.datagramOn p) trace).head? = some ((pcbs p).remoteEnd, (pcbs p).localEnd) ∨
      (select (Event.datagramOn p) trace = [] ∧ ∃ data old target,
        loop = .push p data (.udp (pcbs p).remoteEnd (pcbs p).localEnd old) target)
  fresh : ∀ p, nextPcb ≤ p → select (Event.datagramOn p) trace = []

/-- `FirstOn` of a state of the system. -/
abbrev Sys.InFirst (s : Sys) : Prop := FirstOn s.nextPcb s.pcbs s.loop s.trace

section

variable {nextPcb : PcbId} {pcbs : PcbId → PCB} {loop : LoopPc} {trace : List Event} {ev : Event}

namespace FirstOn

/-- One more event that concerns no datagram. -/
theorem emit (h : FirstOn nextPcb pcbs loop trace)
    (hev : ∀ p, ev.datagramOn p = none := by intro; rfl) :
    FirstOn nextPcb pcbs loop (trace ++ [ev]) := by
  have same : ∀ p, select (Event.datagramOn p) (trace ++ [ev]) =
      select (Event.datagramOn p) trace :=
    fun p => select_snoc_of_none (hev p) trace
  constructor
  · simpa only [same] using h.first
  · simpa only [same] using h.fresh

/-- `if Event != nil { Event.… }` -/
theorem notify (event : Bool) (h : FirstOn nextPcb pcbs loop trace)
    (hev : ∀ p, ev.datagramOn p = none := by intro; rfl) :
    FirstOn nextPcb pcbs loop (trace ++ if event then [ev] else []) :=
  snoc_if (P := FirstOn nextPcb pcbs loop) event h (h.emit hev)

theorem setPcbs (h : FirstOn nextPcb pcbs loop trace) {pcbs' : PcbId → PCB}
    (hkept : PcbsKept pcbs pcbs') : FirstOn nextPcb pcbs' loop trace := by
  refine { h with first := ?_ }
  simpa only [Made, hkept.flow] using h.first

/-- The loop moves outside the handlers of datagrams. -/
theorem goto (h : FirstOn nextPcb pcbs loop trace) {pc : LoopPc}
    (hloop : loop.inDatagram = false := by rfl) : FirstOn nextPcb pcbs pc trace := by
  refine { h with first := ?_ }
  intro p hp
  rcases h.first p hp with hfirst | ⟨_, data, old, target, rfl⟩
  · exact Or.inl hfirst
  · cases hloop

theorem target {p : PcbId} {data : Bytes} {ctx : PushCtx} {r : RecvChan}
    (h : FirstOn nextPcb pcbs (.push p data ctx none) trace) :
    FirstOn nextPcb pcbs (.push p data ctx (some r)) trace := by
  refine { h with first := ?_ }
  intro q hq
  rcases h.first q hq with hfirst | ⟨hnone, _, old, _, hpush⟩
  · exact Or.inl hfirst
  · cases hpush
    exact Or.inr ⟨hnone, data, old, some r, rfl⟩

/-- A TCP PCB. -/
theorem newTcp (h : FirstOn nextPcb pcbs .lwip trace) {y : PCB} (hy : y.type = .tcp) :
    FirstOn (nextPcb + 1) (Function.update pcbs nextPcb y) .lwip trace := by
  constructor
  · rintro p ⟨hlt, htype⟩
    by_cases hp : p = nextPcb
    · subst hp
      rw [Function.update_self, hy] at htype
      cases htype
    · rw [Function.update_of_ne hp] at htype ⊢
      exact h.first p ⟨Nat.lt_of_le_of_ne (Nat.le_of_lt_succ hlt) hp, htype⟩
  · intro p hp
    exact h.fresh p (Nat.le_of_succ_le hp)

/-- The PCB made for the datagram in hand. -/
theorem newUdp (h : FirstOn nextPcb pcbs .lwip trace) {y : PCB} {data : Bytes}
    {src dst : Endpoint} {old : UdpPcb} (hremote : y.remoteEnd = src) (hlocal : y.localEnd = dst) :
    FirstOn (nextPcb + 1) (Function.update pcbs nextPcb y)
      (.push nextPcb data (.udp src dst old) none) trace := by
  constructor
  · rintro p ⟨hlt, htype⟩
    by_cases hp : p = nextPcb
    · subst hp
      rw [Function.update_self, hremote, hlocal]
      exact Or.inr ⟨h.fresh p (Nat.le_refl p), data, old, none, rfl⟩
    · rw [Function.update_of_ne hp] at htype ⊢
      rcases h.first p ⟨Nat.lt_of_le_of_ne (Nat.le_of_lt_succ hlt) hp, htype⟩ with
        hfirst | ⟨_, _, _, _, hpush⟩
      · exact Or.inl hfirst
      · cases hpush
  · intro p hp
    exact h.fresh p (Nat.le_of_succ_le hp)

/-- The datagram in hand is queued. -/
theorem queue {p : PcbId} {data : Bytes} {src dst : Endpoint} {old : UdpPcb}
    {target : Option RecvChan}
    (h : FirstOn nextPcb pcbs (.push p data (.udp src dst old) target) trace)
    (hlt : p < nextPcb) : FirstOn nextPcb pcbs .lwip (trace ++ [.udpQueued p src dst data]) := by
  constructor
  · intro q hq
    left
    rw [select_snoc]
    rcases h.first q hq with hfirst | ⟨hnone, _, _, _, hpush⟩
    · rw [List.head?_append, hfirst]
      rfl
    · cases hpush
      rw [hnone, Event.datagramOn, if_pos rfl]
      rfl
  · intro q hq
    have hne : p ≠ q := Nat.ne_of_lt (Nat.lt_of_lt_of_le hlt hq)
    have hnone : (Event.udpQueued p src dst data).datagramOn q = none := if_neg hne
    rw [select_snoc_of_none hnone, h.fresh q hq]

end FirstOn

end

variable {cfg : Config} {s t : Sys} {o : Outcomes}

/-- Both facts about the one pcb. -/
structure Sys.Shared (s : Sys) : Prop where
  borrowed : s.InBorrowed
  first : s.InFirst

theorem LoopKept.shared (h : LoopKept Event.ofGoroutine s t) (hpanic : s.panic = none)
    (hs : s.Shared) : t.Shared := by
  obtain ⟨hborrowed, hfirst⟩ := hs
  constructor
  · rw [Sys.InBorrowed, hpanic] at hborrowed
    rw [Sys.InBorrowed, h.loop, h.upcb]
    exact hborrowed.crash _
  · rw [Sys.InFirst, h.nextPcb, h.loop]
    refine FirstOn.setPcbs (h.trace.ind hfirst fun tr ev hev hfirst => ?_) h.pcbs
    cases ev <;> first | contradiction | exact hfirst.emit

theorem LoopStep.shared {pc : LoopPc} (hpc : s.loop = pc) (h : LoopStep cfg s o pc t)
    (hpanic : s.panic = none) (hs : s.Shared) (hknown : s.InUse) : t.Shared := by
  have hb : Borrowed pc s.upcb none := hpc ▸ hpanic ▸ hs.borrowed
  have hf : FirstOn s.nextPcb s.pcbs pc s.trace := hpc ▸ hs.first
  cases h with
  | creditClosed _ => exact ⟨hb.goto, hf.goto⟩
  | credit _ => exact ⟨hb.goto, .emit hf.goto⟩
  | dropped _ => exact ⟨hb.goto, .emit hf.goto⟩
  | passed _ _ => exact ⟨hb.goto, .emit hf.goto⟩
  | sendEmpty _ => exact ⟨hpc ▸ hb.crash _, hs.first⟩
  | udpSendEmpty _ => exact ⟨hpc ▸ hb.crash _, hs.first⟩
  | sendFailed _ _ _ _ _ => exact ⟨hb.goto, .emit (.setPcbs hf.goto .set)⟩
  | sendTcp _ _ _ _ _ _ _ => exact ⟨hb.goto, .emit (.emit (.setPcbs hf.goto .set))⟩
  | sendUdp _ _ _ => exact ⟨hb.goto, .emit (.emit hf.goto)⟩
  | sendUdpFailed _ _ _ => exact ⟨hb.goto, .emit hf.goto⟩
  | post _ => exact ⟨hb.goto, hf.goto⟩
  | netif => exact ⟨hb.goto, .emit hf.goto⟩
  | netifNone => exact ⟨hb.goto, hf.goto⟩
  | leave => exact ⟨hb.goto, hf.goto⟩
  | target => exact ⟨hb.target, hf.target⟩
  | pushClosed _ => exact ⟨hpc ▸ hb.crash _, hs.first⟩
  | push _ => exact ⟨hb.goto, .emit (.emit hf.goto)⟩
  | pushUdp _ =>
      have hok := hknown.loop
      rw [hpc] at hok
      exact ⟨hb.restore, .queue (.emit hf) hok.1⟩
  | doneClosed _ => exact ⟨hpc ▸ hb.crash _, hs.first⟩
  | done _ => exact ⟨hb.goto, .setPcbs hf.goto .set⟩
  | @close p pc pc' a e k s' hclose =>
      have hkept := hclose.loopKept.widen
      have hfirst := (hkept.shared hpanic hs).first
      rw [Sys.InFirst, hkept.loop, hpc] at hfirst
      refine ⟨?_, hfirst.goto⟩
      rw [Sys.InBorrowed, hkept.upcb]
      exact hb.goto
  | closed => exact ⟨hb.goto, .emit (.emit (.notify cfg.event (.setPcbs hf.goto .set)))⟩

theorem CallbackStep.shared {cb : Callback} (hloop : s.loop = .lwip)
    (h : CallbackStep cfg s o cb t) (hpanic : s.panic = none) (hs : s.Shared) : t.Shared := by
  have hb : Borrowed .lwip s.upcb none := hloop ▸ hpanic ▸ hs.borrowed
  have hf : FirstOn s.nextPcb s.pcbs .lwip s.trace := hloop ▸ hs.first
  have outside : ∀ {nextPcb pcbs trace}, FirstOn nextPcb pcbs .lwip trace →
      FirstOn nextPcb pcbs s.loop trace := by
    intro nextPcb pcbs trace h
    exact hloop ▸ h
  cases h with
  | ignored => exact hs
  | accept _ _ =>
      exact ⟨hs.borrowed, outside (.emit (.notify cfg.event (.emit (hf.newTcp rfl))))⟩
  | assertion => exact ⟨hloop ▸ hb.crash _, hs.first⟩
  | recvClosed _ _ _ _ _ _ => exact ⟨hb.goto, .emit (.emit (.emit hf))⟩
  | recvEmpty _ _ _ _ _ _ => exact ⟨hloop ▸ hb.crash _, outside (.emit (.emit hf))⟩
  | recv _ _ _ _ _ _ _ => exact ⟨hb.goto, .emit (.emit hf.goto)⟩
  | fin _ _ _ _ _ => exact ⟨hb.goto, .emit (.emit hf.goto)⟩
  | err _ _ _ _ _ => exact ⟨hb.goto, .emit (.emit (.emit hf.goto))⟩
  | sentMore _ _ _ _ _ _ _ => exact ⟨hb.goto, .emit (.emit hf)⟩
  | sentIdle _ _ _ _ _ _ _ => exact ⟨hb.goto, .emit hf⟩
  | sent _ _ _ _ _ _ _ _ => exact ⟨hb.goto, .emit (.setPcbs hf.goto .set)⟩
  | pollMore _ _ _ _ _ _ _ => exact ⟨hb.goto, .emit hf⟩
  | udpEmpty =>
      refine ⟨⟨nofun, ?_, hs.borrowed.old⟩, hs.first⟩
      intro hselect
      cases hloop.symm.trans hselect
  | udpKnown _ _ => exact ⟨hb.store, hf.goto⟩
  | udpNew _ _ => exact ⟨hb.store, .notify cfg.event (hf.newUdp rfl rfl)⟩

theorem Step.shared {a : Act} (h : Step cfg s a t) (hpanic : s.panic = none) (hs : s.Shared)
    (hknown : s.InUse) : t.Shared := by
  by_cases ha : a.ofGoroutine = true
  · exact (h.loopKept ha).shared hpanic hs
  obtain ⟨hborrowed, hfirst⟩ := id hs
  have hb : Borrowed s.loop s.upcb none := hpanic ▸ hborrowed
  cases h with
  | frame _ => exact ⟨hborrowed, .emit hfirst⟩
  | takeRecved hloop _ =>
      rw [hloop] at hb
      exact ⟨hb.goto, hfirst.goto (by rw [hloop]; rfl)⟩
  | takeClose _ _ _ => exact ⟨hborrowed, .emit hfirst⟩
  | takeCloseUdp _ _ _ => exact ⟨hborrowed, .emit hfirst⟩
  | takeSend hloop _ =>
      rw [hloop] at hb
      exact ⟨hb.goto, hfirst.goto (by rw [hloop]; rfl)⟩
  | takeInput hloop _ =>
      rw [hloop] at hb
      exact ⟨hb.goto, hfirst.goto (by rw [hloop]; rfl)⟩
  | loop hpc h => exact h.shared hpc hpanic hs hknown
  | callback hloop h => exact h.shared hloop hpanic hs
  | release _ _ _ => exact ⟨hborrowed, hfirst⟩
  | _ => exact absurd rfl ha

theorem reachable_shared (h : (bridge cfg).Reachable s) : s.Shared := by
  refine h.invariant_of reachable_inOrder ?_ ?_
  · refine ⟨⟨fun _ _ => rfl, fun _ => rfl, nofun⟩, ?_, fun _ _ => rfl⟩
    rintro p ⟨hlt, _⟩
    exact absurd hlt (Nat.not_lt_zero p)
  · intro s a t hs _ hshared hstep
    exact (step_cases hs hstep).shared (step_running hstep) hshared hs.known

/-! ### The sends as the C code makes them -/

/-- The system, the other fields of its UDP pcb, and the calls of lwIP that the sends of
each PCB made. -/
structure UdpSys where
  sys : Sys
  iface : UdpIface
  calls : List (PcbId × UdpCall)

/-- An action, with what lwIP answers if a datagram is sent. -/
abbrev UdpAct := Act × UdpAnswers

def UdpSys.upcb (u : UdpSys) : UdpRaw := { u.iface with localEnd := u.sys.upcb }

/-- The entry that `udpSend` sends in this step, and whether `pbuf_alloc` succeeds. -/
def Sys.udpSending (s : Sys) : Act → Option (SendEntry × Bool)
  | .loop o =>
      match s.loop with
      | .udpSend entry => if (s.bufs entry.data).data ≠ [] then some (entry, o.alloc) else none
      | _ => none
  | _ => none

/-- `udpSend` of an entry. -/
def UdpSys.udpSend (cfg : Config) (u : UdpSys) (entry : SendEntry) (ans : UdpAnswers) :
    UdpRun Nat :=
  let x := u.sys.pcbs entry.pcb
  let buf := (u.sys.bufs entry.data).data
  csUdpCharSendto cfg.lwip u.upcb x.localEnd x.remoteEnd buf (cInt buf.length) ans

/-- A step of the bridge in which a send leaves the pcb as `cs_udp_char_sendto` does. -/
def udpStep (cfg : Config) (u : UdpSys) (x : UdpAct) : Option UdpSys :=
  (step cfg u.sys x.1).bind fun t =>
    match u.sys.udpSending x.1 with
    | none => some { u with sys := t }
    | some (entry, alloc) =>
        if alloc = x.2.alloc.isSome then
          let run := u.udpSend cfg entry x.2
          some
            { sys := t.setUpcb run.upcb.localEnd
              iface := run.upcb.toUdpIface
              calls := u.calls ++ run.calls.map fun call => (entry.pcb, call) }
        else none

/-- The bridge with the C side of its sends. `udp_new` clears the pcb. -/
def udpBridge (cfg : Config) : Machine UdpSys UdpAct :=
  ⟨⟨Sys.init cfg, ⟨0, 0, 0⟩, []⟩, udpStep cfg⟩

theorem udpSending_some {a : Act} {entry : SendEntry} {alloc : Bool}
    (h : s.udpSending a = some (entry, alloc)) :
    ∃ o, a = .loop o ∧ s.loop = .udpSend entry ∧ alloc = o.alloc ∧
      (s.bufs entry.data).data ≠ [] := by
  cases a with
  | loop o =>
      simp only [Sys.udpSending] at h
      split at h
      · rename_i e hloop
        split at h
        · rename_i hdata
          cases h
          exact ⟨o, rfl, hloop, rfl, hdata⟩
        · cases h
      · cases h
  | _ => cases h

/-- The bridge's account of a send leaves the pcb as it was, too. -/
theorem udpSending_upcb {a : Act} {entry : SendEntry} {alloc : Bool}
    (hsending : s.udpSending a = some (entry, alloc)) (hs : s.InOrder)
    (h : step cfg s a = some t) : t.upcb = s.upcb := by
  obtain ⟨o, rfl, hloop, rfl, _⟩ := udpSending_some hsending
  cases step_cases hs h with
  | loop hpc h =>
      rw [hloop] at hpc
      subst hpc
      cases h <;> rfl

variable {u v : UdpSys} {x : UdpAct}

theorem udpSend_localEnd (u : UdpSys) (entry : SendEntry) (ans : UdpAnswers) :
    (u.udpSend cfg entry ans).upcb.localEnd = u.sys.upcb :=
  csUdpCharSendto_localEnd ..

/-- A step is one of the bridge; the calls are those of the entry that was sent. -/
theorem udpStep_cases (hs : u.sys.InOrder) (h : udpStep cfg u x = some v) :
    step cfg u.sys x.1 = some v.sys ∧
      ((u.sys.udpSending x.1 = none ∧ v.calls = u.calls) ∨
        ∃ entry, u.sys.udpSending x.1 = some (entry, x.2.alloc.isSome) ∧
          v.calls = u.calls ++
            (u.udpSend cfg entry x.2).calls.map fun call => (entry.pcb, call)) := by
  obtain ⟨t, hstep, hrest⟩ := Option.bind_eq_some_iff.mp h
  split at hrest
  · rename_i hsending
    cases hrest
    exact ⟨hstep, Or.inl ⟨hsending, rfl⟩⟩
  · rename_i entry alloc hsending
    split at hrest
    · rename_i halloc
      subst halloc
      cases hrest
      refine ⟨?_, Or.inr ⟨entry, hsending, rfl⟩⟩
      rw [udpSend_localEnd, ← udpSending_upcb hsending hs hstep]
      exact hstep
    · cases hrest

theorem udpBridge_run {tr : List (UdpSys × UdpAct)} (h : (udpBridge cfg).Run tr u) :
    (bridge cfg).Run (tr.map fun x => (x.1.sys, x.2.1)) u.sys :=
  h.project (f := UdpSys.sys) (g := Prod.fst) rfl fun _ _ _ hreach hstep =>
    (udpStep_cases (reachable_inOrder hreach) hstep).1

/-- Answers to a send that agree with the one of `pbuf_alloc`. -/
def UdpSys.answers (u : UdpSys) (alloc : Bool) : UdpAnswers where
  alloc := if alloc then some 0 else none
  net := ⟨fun _ => none, fun _ _ => none, fun _ _ => none⟩
  left := u.upcb
  err := .ok

/-- Every run of the bridge is one of the system with the C side of its sends. -/
theorem udpBridge_follow {tr : List (Sys × Act)} (h : (bridge cfg).Run tr s) :
    ∃ tr' u, (udpBridge cfg).Run tr' u ∧ u.sys = s ∧
      tr'.map (fun x => (x.1.sys, x.2.1)) = tr := by
  refine h.follow (f := UdpSys.sys) (g := Prod.fst) rfl ?_
  intro u a t hreach hstep
  have hstep : step cfg u.sys a = some t := hstep
  cases hsending : u.sys.udpSending a with
  | none =>
      refine ⟨(a, u.answers true), { u with sys := t }, rfl, rfl, ?_⟩
      simp only [udpBridge, udpStep, hstep, hsending, Option.bind_some]
  | some x =>
      obtain ⟨entry, alloc⟩ := x
      have halloc : alloc = (u.answers alloc).alloc.isSome := by
        cases alloc <;> rfl
      have hlocal : (u.udpSend cfg entry (u.answers alloc)).upcb.localEnd = t.upcb := by
        rw [udpSend_localEnd, udpSending_upcb hsending (reachable_inOrder hreach) hstep]
      refine ⟨(a, u.answers alloc),
        { sys := t
          iface := (u.udpSend cfg entry (u.answers alloc)).upcb.toUdpIface
          calls := u.calls ++ (u.udpSend cfg entry (u.answers alloc)).calls.map fun call =>
            (entry.pcb, call) }, rfl, rfl, ?_⟩
      simp only [udpBridge, udpStep, hstep, hsending, Option.bind_some, if_pos halloc, hlocal]
      rfl

/-! ### Isolation -/

/-- `p` is a UDP PCB with these endpoints, and they are those of its first datagram. -/
structure Sys.FlowOf (s : Sys) (p : PcbId) (src dst : Endpoint) : Prop where
  made : Made s.nextPcb s.pcbs .udp p
  localEnd : (s.pcbs p).localEnd = src
  remoteEnd : (s.pcbs p).remoteEnd = dst
  first : (select (Event.datagramOn p) s.trace).head? = some (dst, src)

theorem Step.flowOf {a : Act} (h : Step cfg s a t) {p : PcbId} {src dst : Endpoint}
    (hs : s.FlowOf p src dst) : t.FlowOf p src dst := by
  obtain ⟨⟨hlt, htype⟩, hsrc, hdst, hfirst⟩ := hs
  have hflow := h.flow_eq hlt
  obtain ⟨rest, htrace⟩ := h.trace_extends
  refine ⟨⟨Nat.lt_of_lt_of_le hlt h.nextPcb_le, ?_⟩, ?_, ?_, ?_⟩
  · exact (congrArg Flow.type hflow).trans htype
  · exact (congrArg Flow.localEnd hflow).trans hsrc
  · exact (congrArg Flow.remoteEnd hflow).trans hdst
  · have hall : select (Event.datagramOn p) t.trace =
        select (Event.datagramOn p) s.trace ++ select (Event.datagramOn p) rest := by
      rw [← htrace]
      exact List.filterMap_append
    rw [hall, List.head?_append, hfirst]
    rfl

/-- The UDP pcb is shared without a trace: its local address is back between two steps of
the loop, every datagram has the endpoints of the PCB it was written to, and every pbuf
of a send is freed once. -/
structure UdpSys.Isolated (u : UdpSys) : Prop where
  restored : u.sys.loop = .select → u.sys.upcb = udpBound
  ends : ∀ p call src dst chain, (p, call) ∈ u.calls → call.sent = some (src, dst, chain) →
    u.sys.FlowOf p src dst
  balanced : Balanced (u.calls.map Prod.snd)

/-- What a send hands to lwIP has the endpoints of its PCB. -/
theorem udpSend_flowOf {entry : SendEntry} {a : Act} {alloc : Bool} {ans : UdpAnswers}
    (hsending : u.sys.udpSending a = some (entry, alloc)) (hs : u.sys.InOrder)
    (hshared : u.sys.Shared) {call : UdpCall} {src dst : Endpoint} {chain : List Pbuf}
    (hcall : call ∈ (u.udpSend cfg entry ans).calls) (hsent : call.sent = some (src, dst, chain)) :
    u.sys.FlowOf entry.pcb src dst := by
  obtain ⟨o, rfl, hloop, rfl, _⟩ := udpSending_some hsending
  have hmade := hs.known.loop
  rw [hloop] at hmade
  have hmem : (src, dst, chain) ∈ select UdpCall.sent (u.udpSend cfg entry ans).calls :=
    List.mem_filterMap.mpr ⟨call, hcall, hsent⟩
  rw [UdpSys.udpSend, csUdpCharSendto_sent] at hmem
  split at hmem
  · cases List.mem_singleton.mp hmem
    refine ⟨hmade, rfl, rfl, ?_⟩
    rcases hshared.first.first entry.pcb hmade with hfirst | ⟨_, _, _, _, hpush⟩
    · exact hfirst
    · cases hloop.symm.trans hpush
  · cases hmem

theorem udpStep_isolated (hs : u.sys.InOrder) (hshared : u.sys.Shared) (ht : v.sys.Shared)
    (hu : u.Isolated) (h : udpStep cfg u x = some v) : v.Isolated := by
  obtain ⟨hstep, hcalls⟩ := udpStep_cases hs h
  have hcases := step_cases hs hstep
  refine ⟨ht.borrowed.selecting, ?_, ?_⟩
  · intro p call src dst chain hmem hsent
    rcases hcalls with ⟨_, hsame⟩ | ⟨entry, hsending, hmore⟩
    · exact hcases.flowOf (hu.ends p call src dst chain (hsame ▸ hmem) hsent)
    · rw [hmore] at hmem
      rcases List.mem_append.mp hmem with hmem | hmem
      · exact hcases.flowOf (hu.ends p call src dst chain hmem hsent)
      · obtain ⟨call', hcall, hpair⟩ := List.mem_map.mp hmem
        cases hpair
        exact hcases.flowOf (udpSend_flowOf hsending hs hshared hcall hsent)
  · rcases hcalls with ⟨_, hsame⟩ | ⟨entry, _, hmore⟩
    · rw [hsame]
      exact hu.balanced
    · have htag : (u.calls ++ (u.udpSend cfg entry x.2).calls.map fun call => (entry.pcb, call)).map
          Prod.snd = u.calls.map Prod.snd ++ (u.udpSend cfg entry x.2).calls := by
        simp [Function.comp_def]
      rw [hmore, htag]
      exact hu.balanced.charSendto ..

/-- However receives and sends of the flows interleave, and whatever lwIP answers, the
shared pcb keeps them apart. -/
theorem run_udpIsolated {tr : List (UdpSys × UdpAct)} (hrun : (udpBridge cfg).Run tr u) :
    u.Isolated := by
  have hall : u.sys.Shared ∧ u.Isolated := by
    induction hrun with
    | start =>
        refine ⟨reachable_shared ⟨[], .start⟩, fun _ => rfl, ?_, balanced_nil⟩
        intro p call src dst chain hmem
        cases hmem
    | step hrun hstep ih =>
        have hbefore := (udpBridge_run hrun).reachable
        have hafter := reachable_shared (udpBridge_run (hrun.step hstep)).reachable
        exact ⟨hafter, udpStep_isolated (reachable_inOrder hbefore) ih.1 hafter ih.2 hstep⟩
  exact hall.2

namespace Schedule

/-- A pbuf is had, routing finds an interface, and `udp_sendto_if_src` fails after it has
bound the pcb elsewhere. -/
def strayed : UdpAnswers where
  alloc := some 5
  net := ⟨fun _ => none, fun _ _ => some 1, fun _ _ => none⟩
  left := ⟨⟨0, 0, 0⟩, ⟨.v4 9, 9⟩⟩
  err := .other

/-- Datagrams open two flows, and the goroutine 0 writes on both. -/
def udpTwo : List Act :=
  enterLwip ++
    [.callback (.udp ⟨.v4 1, 4000⟩ ⟨.v4 2, 53⟩ (some [1])) fine, .loop fine, .loop fine,
      .callback (.udp ⟨.v4 3, 4000⟩ ⟨.v4 4, 53⟩ (some [2])) fine, .loop fine, .loop fine,
      .loop fine] ++
    [.call 0 (.write 0 [7]), .go 0, .go 0, .go 0, .call 0 (.write 1 [8]), .go 0, .go 0, .go 0] ++
    [.take .send fine, .loop fine, .loop fine, .take .send fine, .loop fine, .loop fine]

end Schedule

/-- Two flows, each with a datagram of its own sent. -/
theorem run_udpIsolated_two : ∃ u, (udpBridge Schedule.config).Reachable u ∧ u.Isolated ∧
    u.sys.upcb = udpBound ∧
    u.calls.filterMap (fun x => x.2.sent) =
      [(⟨.v4 2, 53⟩, ⟨.v4 1, 4000⟩, [⟨[7], 1⟩]), (⟨.v4 4, 53⟩, ⟨.v4 3, 4000⟩, [⟨[8], 1⟩])] := by
  obtain ⟨tr, u, hrun, _, htest⟩ := Machine.exists_run_of_exec (udpBridge Schedule.config)
    (fun _ _ => true) (Schedule.udpTwo.map fun a => (a, Schedule.strayed))
    (fun u => u.sys.upcb = udpBound ∧ u.calls.filterMap (fun x => x.2.sent) =
      [(⟨.v4 2, 53⟩, ⟨.v4 1, 4000⟩, [⟨[7], 1⟩]), (⟨.v4 4, 53⟩, ⟨.v4 3, 4000⟩, [⟨[8], 1⟩])])
    (by decide)
  obtain ⟨hbound, hsent⟩ := of_decide_eq_true htest
  exact ⟨u, hrun.reachable, run_udpIsolated hrun, hbound, hsent⟩

end LwipCs
