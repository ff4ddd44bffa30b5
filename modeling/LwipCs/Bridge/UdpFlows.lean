import LwipCs.Bridge.Unchanged
import LwipCs.Bridge.Panics

/-!
# Datagrams and their flows

`udpPcbs` is keyed by the text of a datagram's source alone, and the PCB under a key
has the endpoints of the datagram that opened it. So a datagram is queued on a PCB
with its own endpoints exactly if it has those of the opener of its key. An empty
datagram, or one for a channel that was closed, ends the process instead.
-/

namespace LwipCs

open Interleave

/-- Source and destination of a datagram. -/
abbrev FlowEnds := Endpoint × Endpoint

/-- The endpoints under which a key is open after one more event. -/
def openerStep (host : Host) (key : Key) (opened : Option FlowEnds) :
    Event → Option FlowEnds
  | .udpQueued _ src dst _ =>
      if udpKey host src = key then some (opened.getD (src, dst)) else opened
  | .udpRemoved _ removed => if removed = key then none else opened
  | _ => opened

/-- The datagram that opened the key since it was last removed. -/
def opener (host : Host) (key : Key) (trace : List Event) : Option FlowEnds :=
  trace.foldl (openerStep host key) none

/-- The datagram that `go_udp_recv_h` is called with. -/
def Act.datagram : Act → Option (FlowEnds × Bytes)
  | .callback (.udp src dst (some data)) _ => some ((src, dst), data)
  | _ => none

/-- The datagram queued, and its PCB. -/
def Event.datagram : Event → Option (PcbId × FlowEnds × Bytes)
  | .udpQueued p src dst data => some (p, (src, dst), data)
  | _ => none

/-- The datagram that the loop is about to queue, and its PCB. -/
def LoopPc.datagram : LoopPc → Option (PcbId × FlowEnds × Bytes)
  | .push p data (.udp src dst _) _ => some (p, (src, dst), data)
  | _ => none

/-- The datagrams queued, and the one about to be. -/
def Sys.datagrams (s : Sys) : List (PcbId × FlowEnds × Bytes) :=
  select Event.datagram s.trace ++ s.loop.datagram.toList

/-- An event about the entries of `udpPcbs`. -/
def Event.ofFlows : Event → Bool
  | .udpQueued .. | .udpRemoved .. => true
  | _ => false

/-- The loop has a datagram in hand. -/
def LoopPc.inDatagram : LoopPc → Bool
  | .push _ _ (.udp ..) _ => true
  | _ => false

/-- `udpPcbs` agrees with the datagrams handled so far. While the loop is in a handler
the entry may have been made by the datagram in hand. -/
structure Flows (cfg : Config) (nextPcb : PcbId) (pcbs : PcbId → PCB)
    (udpPcbs : Key → Option PcbId) (loop : LoopPc) (trace : List Event) : Prop where
  known : ∀ key p, udpPcbs key = some p →
    p < nextPcb ∧ udpKey cfg.host (pcbs p).remoteEnd = key
  free : ∀ key, udpPcbs key = none → opener cfg.host key trace = none
  entry : ∀ key p, udpPcbs key = some p →
    opener cfg.host key trace = some ((pcbs p).remoteEnd, (pcbs p).localEnd) ∨
      (opener cfg.host key trace = none ∧ ∃ data old target,
        loop = .push p data (.udp (pcbs p).remoteEnd (pcbs p).localEnd old) target)
  push : ∀ p data src dst old target, loop = .push p data (.udp src dst old) target →
    udpPcbs (udpKey cfg.host src) = some p
  queued : ∀ p src dst data, .udpQueued p src dst data ∈ trace → p < nextPcb

/-- `Flows` of a state of the system. -/
abbrev Sys.InFlows (cfg : Config) (s : Sys) : Prop :=
  Flows cfg s.nextPcb s.pcbs s.udpPcbs s.loop s.trace

section

variable {cfg : Config} {nextPcb : PcbId} {pcbs : PcbId → PCB} {udpPcbs : Key → Option PcbId}
variable {loop : LoopPc} {trace : List Event} {ev : Event}

@[simp] theorem opener_snoc (host : Host) (key : Key) :
    opener host key (trace ++ [ev]) =
      openerStep host key (opener host key trace) ev := by
  simp [opener]

namespace Flows

/-- One more event that concerns no datagram. -/
theorem emit (h : Flows cfg nextPcb pcbs udpPcbs loop trace) (hev : ev.ofFlows = false := by rfl) :
    Flows cfg nextPcb pcbs udpPcbs loop (trace ++ [ev]) := by
  have hother : ∀ {p src dst data}, ev ≠ .udpQueued p src dst data := by
    rintro p src dst data rfl
    cases hev
  have mem : ∀ {p src dst data}, .udpQueued p src dst data ∈ trace ++ [ev] ↔
      .udpQueued p src dst data ∈ trace := by
    intro p src dst data
    simp [hother.symm]
  have hstep : ∀ key opened, openerStep cfg.host key opened ev = opened := by
    intro key opened
    cases ev with
    | udpQueued => cases hev
    | udpRemoved => cases hev
    | _ => rfl
  constructor
  · exact h.known
  · intro key hkey
    rw [opener_snoc, hstep]
    exact h.free key hkey
  · intro key p hkey
    rw [opener_snoc, hstep]
    exact h.entry key p hkey
  · exact h.push
  · intro p src dst data hp
    exact h.queued p src dst data (mem.mp hp)

/-- `if Event != nil { Event.… }` -/
theorem notify (event : Bool) (h : Flows cfg nextPcb pcbs udpPcbs loop trace)
    (hev : ev.ofFlows = false := by rfl) :
    Flows cfg nextPcb pcbs udpPcbs loop (trace ++ if event then [ev] else []) :=
  snoc_if (P := Flows cfg nextPcb pcbs udpPcbs loop) event h (h.emit hev)

theorem setPcbs (h : Flows cfg nextPcb pcbs udpPcbs loop trace) {pcbs' : PcbId → PCB}
    (hkept : PcbsKept pcbs pcbs') : Flows cfg nextPcb pcbs' udpPcbs loop trace := by
  refine { h with known := ?_, entry := ?_ }
  · simpa only [hkept.flow] using h.known
  · simpa only [hkept.flow] using h.entry

/-- The loop moves outside the handlers of datagrams. -/
theorem goto (h : Flows cfg nextPcb pcbs udpPcbs loop trace) {pc : LoopPc}
    (hloop : loop.inDatagram = false := by rfl) (hpc : pc.inDatagram = false := by rfl) :
    Flows cfg nextPcb pcbs udpPcbs pc trace := by
  refine { h with entry := ?_, push := ?_ }
  · intro key p hkey
    rcases h.entry key p hkey with hopened | ⟨_, data, old, target, rfl⟩
    · exact Or.inl hopened
    · cases hloop
  · rintro p data src dst old target rfl
    cases hpc

/-- The handler finds the channel it will send on. -/
theorem target {p : PcbId} {data : Bytes} {ctx : PushCtx} {r : RecvChan}
    (h : Flows cfg nextPcb pcbs udpPcbs (.push p data ctx none) trace) :
    Flows cfg nextPcb pcbs udpPcbs (.push p data ctx (some r)) trace := by
  refine { h with entry := ?_, push := ?_ }
  · intro key q hkey
    rcases h.entry key q hkey with hopened | ⟨hnone, _, old, _, hpush⟩
    · exact Or.inl hopened
    · cases hpush
      exact Or.inr ⟨hnone, data, old, some r, rfl⟩
  · rintro _ _ src dst old _ ⟨⟩
    exact h.push _ _ src dst old _ rfl

/-- A PCB for another protocol, or one that nothing names yet. -/
theorem newPcb (h : Flows cfg nextPcb pcbs udpPcbs loop trace) {y : PCB} :
    Flows cfg (nextPcb + 1) (Function.update pcbs nextPcb y) udpPcbs loop trace := by
  have old : ∀ {q}, q < nextPcb → Function.update pcbs nextPcb y q = pcbs q :=
    fun hq => Function.update_of_ne (Nat.ne_of_lt hq) ..
  refine { h with known := ?_, entry := ?_, queued := ?_ }
  · intro key p hkey
    obtain ⟨hlt, hsame⟩ := h.known key p hkey
    rw [old hlt]
    exact ⟨Nat.lt_succ_of_lt hlt, hsame⟩
  · intro key p hkey
    rw [old (h.known key p hkey).1]
    exact h.entry key p hkey
  · intro p src dst data hp
    exact Nat.lt_succ_of_lt (h.queued p src dst data hp)

/-- A datagram for an entry of the table. -/
theorem handle (h : Flows cfg nextPcb pcbs udpPcbs .lwip trace) {p : PcbId} {data : Bytes}
    {src dst : Endpoint} {old : UdpPcb} (hp : udpPcbs (udpKey cfg.host src) = some p) :
    Flows cfg nextPcb pcbs udpPcbs (.push p data (.udp src dst old) none) trace := by
  refine { h with entry := ?_, push := ?_ }
  · intro key q hkey
    rcases h.entry key q hkey with hopened | ⟨_, _, _, _, hpush⟩
    · exact Or.inl hopened
    · cases hpush
  · rintro _ _ _ _ _ _ ⟨⟩
    exact hp

/-- The datagram in hand makes an entry for the PCB just made. -/
theorem enter (h : Flows cfg nextPcb pcbs udpPcbs .lwip trace) {p : PcbId} {data : Bytes}
    {src dst : Endpoint} {old : UdpPcb} (hlt : p < nextPcb) (hremote : (pcbs p).remoteEnd = src)
    (hlocal : (pcbs p).localEnd = dst)
    (hfree : udpPcbs (udpKey cfg.host src) = none) :
    Flows cfg nextPcb pcbs (Function.update udpPcbs (udpKey cfg.host src) (some p))
      (.push p data (.udp src dst old) none) trace := by
  refine { h with known := ?_, free := ?_, entry := ?_, push := ?_ }
  · intro key q hkey
    by_cases hsame : key = udpKey cfg.host src
    · subst hsame
      rw [Function.update_self] at hkey
      cases hkey
      exact ⟨hlt, by rw [hremote]⟩
    · rw [Function.update_of_ne hsame] at hkey
      exact h.known key q hkey
  · intro key hkey
    by_cases hsame : key = udpKey cfg.host src
    · subst hsame
      rw [Function.update_self] at hkey
      cases hkey
    · rw [Function.update_of_ne hsame] at hkey
      exact h.free key hkey
  · intro key q hkey
    by_cases hsame : key = udpKey cfg.host src
    · subst hsame
      rw [Function.update_self] at hkey
      cases hkey
      rw [hremote, hlocal]
      exact Or.inr ⟨h.free _ hfree, data, old, none, rfl⟩
    · rw [Function.update_of_ne hsame] at hkey
      rcases h.entry key q hkey with hopened | ⟨_, _, _, _, hpush⟩
      · exact Or.inl hopened
      · cases hpush
  · rintro _ _ _ _ _ _ ⟨⟩
    exact Function.update_self ..

/-- The datagram in hand is queued. -/
theorem queue {p : PcbId} {data : Bytes} {src dst : Endpoint} {old : UdpPcb}
    {target : Option RecvChan}
    (h : Flows cfg nextPcb pcbs udpPcbs (.push p data (.udp src dst old) target) trace) :
    Flows cfg nextPcb pcbs udpPcbs .lwip (trace ++ [.udpQueued p src dst data]) := by
  have hin := h.push p data src dst old target rfl
  have hentry := h.entry _ p hin
  have hopened : (opener cfg.host (udpKey cfg.host src) trace).getD (src, dst) =
      ((pcbs p).remoteEnd, (pcbs p).localEnd) := by
    rcases hentry with hopened | ⟨hnone, _, _, _, hpush⟩
    · rw [hopened]
      rfl
    · rw [hnone]
      cases hpush
      rfl
  constructor
  · exact h.known
  · intro key hkey
    have hne : udpKey cfg.host src ≠ key := by
      rintro rfl
      rw [hin] at hkey
      cases hkey
    rw [opener_snoc, openerStep, if_neg hne]
    exact h.free key hkey
  · intro key q hkey
    by_cases hkeysame : udpKey cfg.host src = key
    · subst hkeysame
      rw [hin] at hkey
      cases hkey
      rw [opener_snoc, openerStep, if_pos rfl, hopened]
      exact Or.inl rfl
    · rw [opener_snoc, openerStep, if_neg hkeysame]
      rcases h.entry key q hkey with hopened | ⟨_, _, _, _, hpush⟩
      · exact Or.inl hopened
      · cases hpush
        exact absurd (h.known key _ hkey).2 hkeysame
  · nofun
  · intro q src' dst' data' hq
    rcases List.mem_append.mp hq with hq | hq
    · exact h.queued q src' dst' data' hq
    · cases List.mem_singleton.mp hq
      exact (h.known _ p hin).1

/-- The loop removes the entry of a PCB. -/
theorem remove (h : Flows cfg nextPcb pcbs udpPcbs .select trace) {p : PcbId} {key : Key} :
    Flows cfg nextPcb pcbs (Function.update udpPcbs key none) .select
      (trace ++ [.udpRemoved p key]) := by
  have none_of : ∀ {key' p}, Function.update udpPcbs key none key' = some p →
      key ≠ key' ∧ udpPcbs key' = some p := by
    intro key' p hkey
    by_cases hsame : key' = key
    · subst hsame
      rw [Function.update_self] at hkey
      cases hkey
    · rw [Function.update_of_ne hsame] at hkey
      exact ⟨Ne.symm hsame, hkey⟩
  constructor
  · intro key' p hkey
    exact h.known key' p (none_of hkey).2
  · intro key' hkey
    rw [opener_snoc, openerStep]
    by_cases hsame : key = key'
    · rw [if_pos hsame]
    · rw [if_neg hsame]
      rw [Function.update_of_ne (Ne.symm hsame)] at hkey
      exact h.free key' hkey
  · intro key' p hkey
    obtain ⟨hne, hkey⟩ := none_of hkey
    rw [opener_snoc, openerStep, if_neg hne]
    exact h.entry key' p hkey
  · nofun
  · intro p src dst data hp
    exact h.queued p src dst data (by simpa using hp)

end Flows

end

variable {cfg : Config} {s t : Sys} {o : Outcomes}

theorem LoopKept.inFlows (h : LoopKept Event.ofGoroutine s t) (hs : s.InFlows cfg) :
    t.InFlows cfg := by
  rw [Sys.InFlows, h.nextPcb, h.udpPcbs, h.loop]
  refine Flows.setPcbs (h.trace.ind hs fun tr ev hev hs => ?_) h.pcbs
  cases ev <;> first | contradiction | exact hs.emit

theorem LoopStep.inFlows {pc : LoopPc} (hpc : s.loop = pc) (h : LoopStep cfg s o pc t)
    (hs : s.InFlows cfg) : t.InFlows cfg := by
  have hs' : Flows cfg s.nextPcb s.pcbs s.udpPcbs pc s.trace := hpc ▸ hs
  cases h with
  | creditClosed _ => exact hs'.goto
  | credit _ => exact .emit hs'.goto
  | dropped _ => exact .emit hs'.goto
  | passed _ _ => exact .emit hs'.goto
  | sendEmpty _ => exact hs
  | udpSendEmpty _ => exact hs
  | sendFailed _ _ _ _ _ => exact .emit (.setPcbs hs'.goto .set)
  | sendTcp _ _ _ _ _ _ _ => exact .emit (.emit (.setPcbs hs'.goto .set))
  | sendUdp _ _ _ => exact .emit (.emit hs'.goto)
  | sendUdpFailed _ _ _ => exact .emit hs'.goto
  | post _ => exact hs'.goto
  | netif => exact .emit hs'.goto
  | netifNone => exact hs'.goto
  | leave => exact hs'.goto
  | target => exact hs'.target
  | pushClosed _ => exact hs
  | push _ => exact .emit (.emit hs'.goto)
  | pushUdp _ => exact .queue (.emit hs')
  | doneClosed _ => exact hs
  | done _ => exact .setPcbs hs'.goto .set
  | @close p pc pc' a e k s' hclose =>
      have hclosed := hclose.loopKept.widen.inFlows hs
      refine hclosed.goto ?_
      rw [hclose.loopKept.loop, hpc]
      rfl
  | closed => exact .emit (.emit (.notify cfg.event (.setPcbs hs'.goto .set)))

theorem CallbackStep.inFlows {cb : Callback} (hloop : s.loop = .lwip)
    (h : CallbackStep cfg s o cb t) (hs : s.InFlows cfg) : t.InFlows cfg := by
  have hs' : Flows cfg s.nextPcb s.pcbs s.udpPcbs .lwip s.trace := hloop ▸ hs
  cases h with
  | ignored => exact hs
  | accept _ _ => exact .emit (.notify cfg.event (.emit hs.newPcb))
  | assertion => exact hs
  | recvClosed _ _ _ _ _ _ => exact .emit (.emit (.emit hs'))
  | recvEmpty _ _ _ _ _ _ => exact .emit (.emit hs)
  | recv _ _ _ _ _ _ _ => exact .emit (.emit hs'.goto)
  | fin _ _ _ _ _ => exact .emit (.emit hs'.goto)
  | err _ _ _ _ _ => exact .emit (.emit (.emit hs'.goto))
  | sentMore _ _ _ _ _ _ _ => exact .emit (.emit hs')
  | sentIdle _ _ _ _ _ _ _ => exact .emit hs'
  | sent _ _ _ _ _ _ _ _ => exact .emit (.setPcbs hs'.goto .set)
  | pollMore _ _ _ _ _ _ _ => exact .emit hs'
  | udpEmpty => exact hs
  | udpKnown hp _ => exact hs'.handle hp
  | udpNew hp _ =>
      refine .notify cfg.event (.enter hs'.newPcb (Nat.lt_succ_self _) ?_ ?_ hp) <;>
        rw [Function.update_self] <;> rfl

theorem Step.inFlows {a : Act} (h : Step cfg s a t) (hs : s.InFlows cfg) : t.InFlows cfg := by
  by_cases ha : a.ofGoroutine = true
  · exact (h.loopKept ha).inFlows hs
  cases h with
  | frame _ => exact .emit hs
  | takeRecved hloop _ => exact hs.goto (by rw [hloop]; rfl)
  | takeClose _ _ _ => exact .emit hs
  | takeCloseUdp hloop _ _ =>
      have hs' : Flows cfg s.nextPcb s.pcbs s.udpPcbs .select s.trace := hloop ▸ hs
      simp only [Sys.InFlows, hloop]
      exact hs'.remove
  | takeSend hloop _ => exact hs.goto (by rw [hloop]; rfl)
  | takeInput hloop _ => exact hs.goto (by rw [hloop]; rfl)
  | loop hpc h => exact h.inFlows hpc hs
  | callback hloop h => exact h.inFlows hloop hs
  | release _ _ _ => exact hs
  | _ => exact absurd rfl ha

theorem reachable_inFlows (h : (bridge cfg).Reachable s) : s.InFlows cfg := by
  refine h.invariant_of reachable_inOrder ?_ ?_
  · exact ⟨nofun, fun _ _ => rfl, nofun, nofun, nofun⟩
  · intro s a t hs _ hflows hstep
    exact (step_cases hs hstep).inFlows hflows

/-! ### Each datagram is queued -/

/-- Every datagram that `go_udp_recv_h` is called with is queued, once and in order, on a PCB
with its source as the remote and its destination as the local endpoint. The one it is about
to queue is for such a PCB, and the send has not ended the process. -/
structure QueuesEach (tr : List (Sys × Act)) (s : Sys) : Prop where
  each : s.datagrams.map Prod.snd = tr.filterMap fun x => x.2.datagram
  right : ∀ x ∈ s.datagrams, ((s.pcbs x.1).remoteEnd, (s.pcbs x.1).localEnd) = x.2.1
  sent : s.panic = some .sendOnClosed → s.loop.inDatagram = false

/-- A datagram is not empty and has the endpoints of the one that opened its key, and the
channel loaded for it was not closed since. -/
def DatagramOk (cfg : Config) (s : Sys) (a : Act) : Prop :=
  (∀ src dst data, a.datagram = some ((src, dst), data) → data ≠ [] ∧
    ∀ ends, opener cfg.host (udpKey cfg.host src) s.trace = some ends →
      ends = (src, dst)) ∧
  ∀ o p data src dst old r, a = .loop o → s.loop = .push p data (.udp src dst old) (some r) →
    (s.chans r).closed = false

theorem datagrams_eq {pc : LoopPc} (hloop : s.loop = pc) :
    s.datagrams = select Event.datagram s.trace ++ pc.datagram.toList := by
  rw [Sys.datagrams, hloop]

theorem LoopKept.datagrams_eq (h : LoopKept Event.ofGoroutine s t) :
    t.datagrams = s.datagrams := by
  rw [Sys.datagrams, h.loop, h.trace.select_eq ?_, Sys.datagrams]
  intro ev hev
  cases ev <;> first | rfl | cases hev

theorem LoopStep.datagrams_eq {pc : LoopPc} (hpc : s.loop = pc) (h : LoopStep cfg s o pc t) :
    t.datagrams = s.datagrams := by
  rw [LwipCs.datagrams_eq hpc]
  cases h with
  | target => cases ‹PushCtx› <;> rfl
  | close h =>
      have hkept := h.loopKept.widen
      have hsame := hkept.datagrams_eq
      rw [LwipCs.datagrams_eq (hkept.loop.trans hpc), LwipCs.datagrams_eq hpc] at hsame
      exact hsame
  | closed =>
      cases hevent : cfg.event <;>
        simp [Sys.datagrams, List.filterMap_cons, Event.datagram, LoopPc.datagram]
  | _ => simp [Sys.datagrams, hpc, List.filterMap_cons, Event.datagram, LoopPc.datagram]

/-- Only a call of `go_udp_recv_h` brings a datagram. -/
theorem Step.datagrams_eq {a : Act} (h : Step cfg s a t) (hnone : a.datagram = none) :
    t.datagrams = s.datagrams := by
  by_cases ha : a.ofGoroutine = true
  · exact (h.loopKept ha).datagrams_eq
  cases h with
  | takeRecved hloop _ => simp [Sys.datagrams, hloop, LoopPc.datagram]
  | takeSend hloop _ => simp [Sys.datagrams, hloop, LoopPc.datagram]
  | takeInput hloop _ => simp [Sys.datagrams, hloop, LoopPc.datagram]
  | loop hpc h => exact h.datagrams_eq hpc
  | callback hloop h =>
      rw [LwipCs.datagrams_eq hloop]
      cases h with
      | ignored => rw [LwipCs.datagrams_eq hloop]
      | accept _ _ =>
          cases hevent : cfg.event <;>
            simp [Sys.datagrams, hloop, List.filterMap_cons, Event.datagram, LoopPc.datagram]
      | udpEmpty => cases hnone
      | udpKnown _ _ => cases hnone
      | udpNew _ _ => cases hnone
      | _ => simp [Sys.datagrams, hloop, List.filterMap_cons, Event.datagram, LoopPc.datagram]
  | _ => first | exact absurd rfl ha | simp [Sys.datagrams, List.filterMap_cons, Event.datagram]

theorem callback_of_datagram {a : Act} {src dst : Endpoint} {data : Bytes}
    (h : a.datagram = some ((src, dst), data)) :
    ∃ o, a = .callback (.udp src dst (some data)) o := by
  cases a with
  | callback cb o =>
      cases cb with
      | udp _ _ p =>
          cases p with
          | none => cases h
          | some _ =>
              cases h
              exact ⟨o, rfl⟩
      | _ => cases h
  | _ => cases h

theorem Step.datagrams_empty {src dst : Endpoint}
    (h : Step cfg s (.callback (.udp src dst (some [])) o) t) : t.datagrams = s.datagrams := by
  cases h with
  | callback hloop h =>
      cases h with
      | ignored hcb => cases hcb
      | udpEmpty => rfl
      | udpKnown _ hdata => exact absurd rfl hdata
      | udpNew _ hdata => exact absurd rfl hdata

/-- The handler finds the PCB with the endpoints of the datagram that opened the key, or
makes one with those of the datagram. -/
theorem Step.datagrams_of {src dst : Endpoint} {data : Bytes}
    (h : Step cfg s (.callback (.udp src dst (some data)) o) t) (hdata : data ≠ [])
    (hs : s.InFlows cfg) : ∃ p, t.datagrams = s.datagrams ++ [(p, (src, dst), data)] ∧
      ((t.pcbs p).remoteEnd, (t.pcbs p).localEnd) =
        (opener cfg.host (udpKey cfg.host src) s.trace).getD (src, dst) := by
  cases h with
  | callback hloop h =>
      rw [LwipCs.datagrams_eq hloop]
      cases h with
      | ignored hcb => cases hcb
      | udpEmpty => exact absurd rfl hdata
      | @udpKnown _ _ p _ hp _ =>
          refine ⟨p, by simp [Sys.datagrams, LoopPc.datagram], ?_⟩
          rcases hs.entry _ p hp with hopened | ⟨_, _, _, _, hpush⟩
          · rw [hopened]
            rfl
          · cases hloop.symm.trans hpush
      | udpNew hp _ =>
          refine ⟨s.nextPcb, ?_, ?_⟩
          · cases hevent : cfg.event <;>
              simp [Sys.datagrams, List.filterMap_cons, Event.datagram, LoopPc.datagram]
          · rw [hs.free _ hp]
            simp only [Function.update_self]
            rfl

/-- The one panic that loses a datagram in hand is that of its send. -/
theorem Step.sent_iff {a : Act} (h : Step cfg s a t) (hrunning : s.panic = none) :
    (t.panic = some .sendOnClosed → t.loop.inDatagram = false) ↔
      ∀ o p data src dst old r, a = .loop o →
        s.loop = .push p data (.udp src dst old) (some r) → (s.chans r).closed = false := by
  constructor
  · rintro hsent o p data src dst old r rfl hloop
    cases h with
    | loop hpc h =>
        obtain rfl := hpc.symm.trans hloop
        cases h with
        | pushClosed _ =>
            have hin := hsent rfl
            rw [hloop] at hin
            cases hin
        | pushUdp hsend => exact (Chan.send_done hsend).1
  · intro hopen hpanic
    cases h.fails hrunning hpanic with
    | @pushClosed o p data ctx r hloop hclosed =>
        cases h with
        | loop hpc h =>
            obtain rfl := hpc.symm.trans hloop
            cases h with
            | pushClosed _ =>
                rw [hloop]
                cases ctx with
                | tcp k => rfl
                | udp src dst old =>
                    rw [hopen o p data src dst old r rfl hloop] at hclosed
                    cases hclosed
            | push _ => cases hrunning.symm.trans hpanic
            | pushUdp _ => cases hrunning.symm.trans hpanic
    | doneClosed hloop _ =>
        cases h with
        | loop hpc h =>
            obtain rfl := hpc.symm.trans hloop
            cases h with
            | doneClosed _ =>
                rw [hloop]
                rfl
            | done _ => cases hrunning.symm.trans hpanic

/-- The PCBs of the datagrams were made. -/
theorem lt_of_datagram (hs : s.InFlows cfg) (hknown : s.InUse) {x : PcbId × FlowEnds × Bytes}
    (hx : x ∈ s.datagrams) : x.1 < s.nextPcb := by
  rcases List.mem_append.mp hx with hx | hx
  · obtain ⟨ev, hev, hsame⟩ := List.mem_filterMap.mp hx
    cases ev with
    | udpQueued p src dst data =>
        cases hsame
        exact hs.queued p src dst data hev
    | _ => cases hsame
  · have hok := hknown.loop
    have hpc := Option.mem_toList.mp hx
    cases hloop : s.loop with
    | push p data ctx target =>
        rw [hloop] at hok hpc
        cases ctx with
        | tcp => cases hpc
        | udp =>
            cases hpc
            exact hok.1
    | _ =>
        rw [hloop] at hpc
        cases hpc

/-- One step keeps every datagram queued right exactly if it meets the condition. -/
theorem Step.queuesEach_iff {tr : List (Sys × Act)} {a : Act} (h : Step cfg s a t)
    (hrunning : s.panic = none) (hs : s.InFlows cfg) (hknown : s.InUse) (heach : QueuesEach tr s) :
    QueuesEach (tr ++ [(s, a)]) t ↔ DatagramOk cfg s a := by
  have hold : ∀ x ∈ s.datagrams, ((t.pcbs x.1).remoteEnd, (t.pcbs x.1).localEnd) = x.2.1 := by
    intro x hx
    have hflow := h.flow_eq (lt_of_datagram hs hknown hx)
    rw [← heach.right x hx, hflow]
  have hmore : ((tr ++ [(s, a)]).filterMap fun x => x.2.datagram) =
      s.datagrams.map Prod.snd ++ a.datagram.toList := by
    rw [heach.each]
    exact select_snoc (fun x : Sys × Act => x.2.datagram) tr (s, a)
  have hsplit : QueuesEach (tr ++ [(s, a)]) t ↔
      (t.datagrams.map Prod.snd = s.datagrams.map Prod.snd ++ a.datagram.toList ∧
        ∀ x ∈ t.datagrams, ((t.pcbs x.1).remoteEnd, (t.pcbs x.1).localEnd) = x.2.1) ∧
        (t.panic = some .sendOnClosed → t.loop.inDatagram = false) := by
    rw [← hmore]
    exact ⟨fun h => ⟨⟨h.each, h.right⟩, h.sent⟩, fun h => ⟨h.1.1, h.1.2, h.2⟩⟩
  rw [hsplit, h.sent_iff hrunning, DatagramOk]
  refine and_congr_left fun _ => ?_
  cases hcall : a.datagram with
  | none =>
      rw [h.datagrams_eq hcall, Option.toList_none, List.append_nil]
      exact iff_of_true ⟨rfl, hold⟩ nofun
  | some x =>
      obtain ⟨⟨src, dst⟩, data⟩ := x
      obtain ⟨o, rfl⟩ := callback_of_datagram hcall
      by_cases hdata : data = []
      · subst hdata
        refine iff_of_false ?_ fun hok => (hok src dst [] rfl).1 rfl
        rintro ⟨hall, _⟩
        have hsame : t.datagrams = s.datagrams := h.datagrams_empty
        rw [hsame] at hall
        simpa using congrArg List.length hall
      · obtain ⟨p, hmore, hends⟩ := h.datagrams_of hdata hs
        rw [hmore]
        constructor
        · rintro ⟨_, hright⟩ _ _ _ ⟨⟩
          refine ⟨hdata, fun ends hopened => ?_⟩
          have hlast : ((t.pcbs p).remoteEnd, (t.pcbs p).localEnd) = (src, dst) :=
            hright (p, (src, dst), data) (by simp)
          rw [← hlast, hends, hopened]
          rfl
        · intro hok
          refine ⟨by simp, fun x hx => ?_⟩
          rcases List.mem_append.mp hx with hx | hx
          · exact hold x hx
          · obtain rfl := List.mem_singleton.mp hx
            rw [hends]
            cases hopened : opener cfg.host (udpKey cfg.host src) s.trace with
            | none => rfl
            | some ends => exact (hok src dst data rfl).2 ends hopened

/-- All along a run each datagram is queued on a PCB with its endpoints, exactly if no datagram
is empty, each has the endpoints of the one that opened its key, and no channel was closed
when a datagram is sent on it. -/
theorem run_queuesEach_iff {tr : List (Sys × Act)} (hrun : (bridge cfg).Run tr s) :
    Machine.Throughout QueuesEach tr s ↔ Machine.Meets (DatagramOk cfg) tr := by
  have known : ∀ {s}, (bridge cfg).Reachable s → s.InOrder ∧ s.InFlows cfg :=
    fun h => ⟨reachable_inOrder h, reachable_inFlows h⟩
  have hknown : Machine.Always (fun s => s.InOrder ∧ s.InFlows cfg) tr s :=
    ⟨fun x hx => known (hrun.reachable_of_mem hx), known hrun.reachable⟩
  refine hrun.throughout_iff hknown ⟨rfl, nofun, nofun⟩ ?_
  intro tr s a t hs _ heach hstep
  exact (step_cases hs.1 hstep).queuesEach_iff (step_running hstep) hs.2 hs.1.known heach

namespace Schedule

/-- The second datagram of the source 1:4000, here to the destination 2:53, and one of the
source 3:4000. -/
def udpFlows (dst : Endpoint) : List Act :=
  enterLwip ++ [.callback (.udp ⟨.v4 1, 4000⟩ ⟨.v4 2, 53⟩ (some [1])) fine, .loop fine, .loop fine,
    .callback (.udp ⟨.v4 1, 4000⟩ dst (some [2])) fine, .loop fine, .loop fine,
    .callback (.udp ⟨.v4 3, 4000⟩ ⟨.v4 2, 53⟩ (some [3])) fine, .loop fine, .loop fine]

/-- `DatagramOk` of one step. -/
def datagramOk (s : Sys) : Act → Bool
  | .callback (.udp src dst (some data)) _ => data ≠ [] ∧
      (opener config.host (udpKey config.host src) s.trace).all (· = (src, dst))
  | .loop _ =>
      match s.loop with
      | .push _ _ (.udp ..) (some r) => !(s.chans r).closed
      | _ => true
  | _ => true

end Schedule

/-- Two datagrams of one flow, and one of another. -/
theorem run_queuesEach_flows : ∃ tr s, (bridge Schedule.config).Run tr s ∧
    (s.chans (.own 0)).buf = [[1], [2]] ∧ (s.chans (.own 1)).buf = [[3]] ∧
      Machine.Throughout QueuesEach tr s := by
  obtain ⟨tr, s, hrun, hmeets, htest⟩ := Machine.exists_run_of_exec (bridge Schedule.config)
    Schedule.datagramOk (Schedule.udpFlows ⟨.v4 2, 53⟩)
    (fun s => (s.chans (.own 0)).buf = [[1], [2]] ∧ (s.chans (.own 1)).buf = [[3]]) (by decide)
  obtain ⟨hfirst, hsecond⟩ := of_decide_eq_true htest
  refine ⟨tr, s, hrun, hfirst, hsecond, (run_queuesEach_iff hrun).mpr (hmeets.mono ?_)⟩
  intro s a hok
  constructor
  · intro src dst data hcall
    obtain ⟨o, rfl⟩ := callback_of_datagram hcall
    obtain ⟨hdata, hends⟩ := of_decide_eq_true hok
    refine ⟨hdata, fun ends hopened => ?_⟩
    rw [show opener Schedule.config.host (udpKey Schedule.config.host src) s.trace = some ends
      from hopened] at hends
    simpa using hends
  · rintro o p data src dst old r rfl hloop
    simpa [Schedule.datagramOk, hloop] using hok

/-- Datagrams of one source to two destinations are queued on one PCB. -/
theorem not_queuesEach_two_destinations : ∃ tr s, (bridge Schedule.config).Run tr s ∧
    ¬Machine.Throughout QueuesEach tr s := by
  obtain ⟨tr, s, hrun, _, htest⟩ := Machine.exists_run_of_exec (bridge Schedule.config)
    (fun _ _ => true) (Schedule.udpFlows ⟨.v4 3, 53⟩)
    (fun s => (0, (⟨.v4 1, 4000⟩, ⟨.v4 3, 53⟩), [2]) ∈ s.datagrams ∧
      (s.pcbs 0).localEnd = ⟨.v4 2, 53⟩) (by decide)
  obtain ⟨hqueued, hlocal⟩ := of_decide_eq_true htest
  refine ⟨tr, s, hrun, ?_⟩
  intro heach
  have hends : (s.pcbs 0).localEnd = ⟨.v4 3, 53⟩ := (Prod.mk.inj (heach.2.right _ hqueued)).2
  rw [hlocal] at hends
  cases hends

end LwipCs
