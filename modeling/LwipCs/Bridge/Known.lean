import LwipCs.Bridge.EventLoop

/-!
# Every PCB in use was made

A goroutine, a queue entry, the loop and the table `udpPcbs` mention only PCBs
that `newPCB` has returned, and a method or a handler that is for one type of PCB
only stands on a PCB of that type.
-/

namespace LwipCs

open Interleave

/-- A PCB that was made, of the given type. -/
def Made (nextPcb : PcbId) (pcbs : PcbId → PCB) (type : PcbType) (p : PcbId) : Prop :=
  p < nextPcb ∧ (pcbs p).type = type

def Thread.Ok (nextPcb : PcbId) (pcbs : PcbId → PCB) : Thread → Prop
  | .idle => True
  | .read p _ (.credit _) => Made nextPcb pcbs .tcp p
  | .read p _ _ => p < nextPcb
  | .write p _ .test | .write p _ .ret => p < nextPcb
  | .write p _ .post => Made nextPcb pcbs .udp p
  | .write p _ _ => Made nextPcb pcbs .tcp p
  | .close p _ | .closePost p | .intercept p _ _ => p < nextPcb

def LoopPc.Ok (nextPcb : PcbId) (pcbs : PcbId → PCB) : LoopPc → Prop
  | .credit r => Made nextPcb pcbs .tcp r.pcb
  | .send entry => entry.pcb < nextPcb
  | .udpSend entry => Made nextPcb pcbs .udp entry.pcb
  | .push p _ (.tcp _) _ | .done p _ _ _ | .close p _ _ _ _ => Made nextPcb pcbs .tcp p
  | .push p _ (.udp _ _ _) _ => Made nextPcb pcbs .udp p
  | _ => True

structure Known (nextPcb : PcbId) (pcbs : PcbId → PCB) (threads : Tid → Thread)
    (sends : List SendEntry) (closes : List PcbId) (recveds : List RecvedEntry) (loop : LoopPc)
    (udpPcbs : Key → Option PcbId) : Prop where
  threads : ∀ t, (threads t).Ok nextPcb pcbs
  sends : ∀ entry ∈ sends, entry.pcb < nextPcb
  closes : ∀ p ∈ closes, p < nextPcb
  recveds : ∀ r ∈ recveds, Made nextPcb pcbs .tcp r.pcb
  loop : loop.Ok nextPcb pcbs
  udp : ∀ key p, udpPcbs key = some p → Made nextPcb pcbs .udp p

/-- `Known` of a state of the system. -/
abbrev Sys.InUse (s : Sys) : Prop :=
  Known s.nextPcb s.pcbs s.threads s.sendQueue.buf s.closeQueue.buf s.recvedQueue.buf s.loop
    s.udpPcbs

/-- Making PCBs and changing fields other than `Type` forgets nothing. -/
structure Extends (nextPcb nextPcb' : PcbId) (pcbs pcbs' : PcbId → PCB) : Prop where
  next : nextPcb ≤ nextPcb'
  type : ∀ p, p < nextPcb → (pcbs' p).type = (pcbs p).type

section Mono

variable {nextPcb nextPcb' : PcbId} {pcbs pcbs' : PcbId → PCB}

theorem Extends.refl : Extends nextPcb nextPcb pcbs pcbs := ⟨Nat.le_refl _, fun _ _ => rfl⟩

theorem Extends.setPcb {p : PcbId} {x : PCB} (htype : x.type = (pcbs p).type) :
    Extends nextPcb nextPcb pcbs (Function.update pcbs p x) := by
  refine ⟨Nat.le_refl _, ?_⟩
  intro q _
  exact update_field (fun y : PCB => y.type) htype q

theorem Extends.newPcb {x : PCB} :
    Extends nextPcb (nextPcb + 1) pcbs (Function.update pcbs nextPcb x) := by
  refine ⟨Nat.le_succ _, ?_⟩
  intro q hq
  rw [Function.update_of_ne (Nat.ne_of_lt hq)]

theorem Made.mono {type : PcbType} {p : PcbId} (h : Made nextPcb pcbs type p)
    (ext : Extends nextPcb nextPcb' pcbs pcbs') : Made nextPcb' pcbs' type p :=
  ⟨Nat.lt_of_lt_of_le h.1 ext.next, (ext.type p h.1).trans h.2⟩

theorem Thread.Ok.mono {th : Thread} (h : th.Ok nextPcb pcbs)
    (ext : Extends nextPcb nextPcb' pcbs pcbs') : th.Ok nextPcb' pcbs' := by
  have lt : ∀ {p}, p < nextPcb → p < nextPcb' := fun h => Nat.lt_of_lt_of_le h ext.next
  cases th with
  | idle => trivial
  | read p len pc =>
      cases pc with
      | credit data => exact Made.mono h ext
      | _ => exact lt h
  | write p w pc =>
      cases pc with
      | test => exact lt h
      | ret => exact lt h
      | _ => exact Made.mono h ext
  | close p pc => exact lt h
  | closePost p => exact lt h
  | intercept p c pc => exact lt h

theorem LoopPc.Ok.mono {loop : LoopPc} (h : loop.Ok nextPcb pcbs)
    (ext : Extends nextPcb nextPcb' pcbs pcbs') : loop.Ok nextPcb' pcbs' := by
  cases loop with
  | credit r => exact Made.mono h ext
  | send entry => exact Nat.lt_of_lt_of_le h ext.next
  | udpSend entry => exact Made.mono h ext
  | push p data ctx target => cases ctx <;> exact Made.mono h ext
  | done p a e k => exact Made.mono h ext
  | close p pc a e k => exact Made.mono h ext
  | _ => trivial

variable {threads : Tid → Thread} {sends : List SendEntry} {closes : List PcbId}
variable {recveds : List RecvedEntry} {loop : LoopPc} {udpPcbs : Key → Option PcbId}

theorem Known.mono (h : Known nextPcb pcbs threads sends closes recveds loop udpPcbs)
    (ext : Extends nextPcb nextPcb' pcbs pcbs') :
    Known nextPcb' pcbs' threads sends closes recveds loop udpPcbs where
  threads t := (h.threads t).mono ext
  sends entry hentry := Nat.lt_of_lt_of_le (h.sends entry hentry) ext.next
  closes p hp := Nat.lt_of_lt_of_le (h.closes p hp) ext.next
  recveds r hr := (h.recveds r hr).mono ext
  loop := h.loop.mono ext
  udp key p hp := (h.udp key p hp).mono ext

theorem Known.setThread (h : Known nextPcb pcbs threads sends closes recveds loop udpPcbs)
    {t : Tid} {th : Thread} (hth : th.Ok nextPcb pcbs) :
    Known nextPcb pcbs (Function.update threads t th) sends closes recveds loop udpPcbs := by
  refine { h with threads := ?_ }
  apply (Function.forall_update_iff threads fun _ x => x.Ok nextPcb pcbs).mpr
  exact ⟨hth, fun u _ => h.threads u⟩

theorem Known.idle (h : Known nextPcb pcbs threads sends closes recveds loop udpPcbs) (t : Tid) :
    Known nextPcb pcbs (Function.update threads t .idle) sends closes recveds loop udpPcbs :=
  h.setThread trivial

theorem Known.setPcb (h : Known nextPcb pcbs threads sends closes recveds loop udpPcbs)
    {p : PcbId} {x : PCB} (htype : x.type = (pcbs p).type) :
    Known nextPcb (Function.update pcbs p x) threads sends closes recveds loop udpPcbs :=
  h.mono (Extends.setPcb htype)

theorem Known.goto (h : Known nextPcb pcbs threads sends closes recveds loop udpPcbs)
    {pc : LoopPc} (hpc : pc.Ok nextPcb pcbs) :
    Known nextPcb pcbs threads sends closes recveds pc udpPcbs :=
  { h with loop := hpc }

end Mono

end LwipCs
