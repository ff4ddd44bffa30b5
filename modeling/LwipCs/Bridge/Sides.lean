import LwipCs.Bridge.Steps

/-!
# What each side leaves of the other

The goroutines on one side, the loop and lwIP on the other, meet in the PCBs, the channels and
the trace. A method leaves the loop, the tables and lwIP's data as they were, and the loop
leaves the goroutines and their buffers. An invariant of one side cites this for the steps of
the other.
-/

namespace LwipCs

open Interleave

variable {cfg : Config} {s t : Sys} {o : Outcomes} {a : Act} {p : PcbId}

/-! ### The loop, under the steps of goroutines -/

/-- A step of a goroutine, of the caller of a finished `Write` or of the owner of an
intercepting channel. -/
def Act.ofGoroutine : Act → Bool
  | .call .. | .go _ | .reuse .. | .userRecv _ => true
  | _ => false

/-- Told by `Read` or `Close`. -/
def Event.ofReadClose : Event → Bool
  | .readOk .. | .readErr .. | .readNil .. | .closeCalled .. | .errSet _ => true
  | _ => false

/-- Told by a method. -/
def Event.ofGoroutine : Event → Bool
  | .locked .. | .enqueued .. | .released .. | .writeRet .. => true
  | ev => ev.ofReadClose

/-- Events of a kind were emitted. -/
inductive Told (kind : Event → Bool) (old : List Event) : List Event → Prop
  | nothing : Told kind old old
  | emit {new : List Event} {ev : Event} (h : Told kind old new) (hev : kind ev = true := by rfl) :
      Told kind old (new ++ [ev])

namespace Told

variable {kind kind' : Event → Bool} {old new : List Event} {ev : Event}

/-- `if Event != nil { Event.… }` -/
theorem notify (event : Bool) (h : Told kind old new) (hev : kind ev = true := by rfl) :
    Told kind old (new ++ if event then [ev] else []) :=
  snoc_if (P := Told kind old) event h (h.emit hev)

theorem mono (h : Told kind old new) (hsub : ∀ ev, kind ev = true → kind' ev = true) :
    Told kind' old new := by
  induction h with
  | nothing => exact .nothing
  | emit _ hev ih => exact ih.emit (hsub _ hev)

/-- What is true of the trace and stays true with an event of the kind. -/
theorem ind {P : List Event → Prop} (h : Told kind old new) (hold : P old)
    (hemit : ∀ tr ev, kind ev = true → P tr → P (tr ++ [ev])) : P new := by
  induction h with
  | nothing => exact hold
  | emit _ hev ih => exact hemit _ _ hev ih

theorem select_eq {α : Type*} {f : Event → Option α} (h : Told kind old new)
    (hnone : ∀ ev, kind ev = true → f ev = none) : select f new = select f old := by
  refine h.ind (P := fun tr => select f tr = select f old) rfl ?_
  intro tr ev hev hsame
  rw [select_snoc_of_none (hnone ev hev), hsame]

/-- An event of another kind was there before. -/
theorem mem (h : Told kind old new) (hmem : ev ∈ new) (hev : kind ev = false := by rfl) :
    ev ∈ old := by
  induction h with
  | nothing => exact hmem
  | emit _ hkind ih =>
      refine ih ((List.mem_append.mp hmem).resolve_right ?_)
      intro hnew
      rw [← List.mem_singleton.mp hnew, hev] at hkind
      cases hkind

end Told

/-- The loop, the tables and what lwIP has are as they were, and events of a kind may have been
emitted. -/
structure LoopKept (kind : Event → Bool) (s t : Sys) : Prop where
  pcbs : PcbsKept s.pcbs t.pcbs := by exact .refl
  sendCount : ∀ p, (t.pcbs p).sendCount = (s.pcbs p).sendCount := by exact fun _ => rfl
  nextPcb : t.nextPcb = s.nextPcb := by rfl
  tcpPcbs : t.tcpPcbs = s.tcpPcbs := by rfl
  udpPcbs : t.udpPcbs = s.udpPcbs := by rfl
  inputQueue : t.inputQueue = s.inputQueue := by rfl
  inputQueue2 : t.inputQueue2 = s.inputQueue2 := by rfl
  loop : t.loop = s.loop := by rfl
  heap : t.heap = s.heap := by rfl
  tpcbs : t.tpcbs = s.tpcbs := by rfl
  nextConn : t.nextConn = s.nextConn := by rfl
  upcb : t.upcb = s.upcb := by rfl
  trace : Told kind s.trace t.trace := by exact .nothing

theorem sendCount_set {x : PCB} (hcount : x.sendCount = (s.pcbs p).sendCount := by rfl) :
    ∀ q, (Function.update s.pcbs p x q).sendCount = (s.pcbs q).sendCount :=
  update_field PCB.sendCount hcount

theorem ReadStep.loopKept {th : Tid} {len : Nat} {pc : ReadPc} (h : ReadStep s th p len pc t) :
    LoopKept Event.ofReadClose s t := by
  cases h with
  | closed _ => exact { trace := .emit .nothing }
  | datagram _ _ _ _ => exact { trace := .emit .nothing }
  | errRet _ => exact { trace := .emit .nothing }
  | nilRet _ => exact { trace := .emit .nothing }
  | credit _ => exact { trace := .emit .nothing }
  | _ => exact {}

theorem WriteStep.loopKept {th : Tid} {w : WriteId} {pc : WritePc}
    (h : WriteStep s th p w pc t) : LoopKept Event.ofGoroutine s t := by
  cases h with
  | empty _ => exact { trace := .emit .nothing }
  | lock _ => exact { pcbs := .set, sendCount := sendCount_set, trace := .emit .nothing }
  | enqueue _ => exact { trace := .emit .nothing }
  | wait _ => exact { pcbs := .set, sendCount := sendCount_set, trace := .emit .nothing }
  | unlock => exact { pcbs := .set, sendCount := sendCount_set }
  | post _ => exact { trace := .emit .nothing }
  | ret => exact { trace := .emit .nothing }
  | _ => exact {}

theorem CloseStep.loopKept {who : Actor} {pc : ClosePc} {next : Option ClosePc}
    (h : CloseStep s who p pc t next) : LoopKept Event.ofReadClose s t := by
  cases h with
  | lock _ => exact { pcbs := .set, sendCount := sendCount_set }
  | setErr => exact { pcbs := .set rfl nofun, sendCount := sendCount_set, trace := .emit .nothing }
  | closeWait _ _ => exact { pcbs := .set, sendCount := sendCount_set }
  | unlock => exact { pcbs := .set, sendCount := sendCount_set }
  | _ => exact {}

theorem InterceptStep.loopKept {kind : Event → Bool} {th : Tid} {c : Nat} {pc : InterPc}
    (h : InterceptStep s th p c pc t) : LoopKept kind s t := by
  cases h with
  | lock _ => exact { pcbs := .set, sendCount := sendCount_set }
  | twice _ => exact { pcbs := .set, sendCount := sendCount_set }
  | set => exact { pcbs := .set, sendCount := sendCount_set }
  | swap => exact { pcbs := .set, sendCount := sendCount_set }
  | unlock => exact { pcbs := .set, sendCount := sendCount_set }
  | _ => exact {}

theorem LoopKept.widen (h : LoopKept Event.ofReadClose s t) : LoopKept Event.ofGoroutine s t := by
  refine { h with trace := h.trace.mono ?_ }
  intro ev hev
  cases ev <;> first | rfl | exact hev

/-- A step of a goroutine leaves the loop as it was. -/
theorem Step.loopKept (h : Step cfg s a t) (ha : a.ofGoroutine = true) :
    LoopKept Event.ofGoroutine s t := by
  cases h with
  | callClose _ _ => exact { trace := .emit .nothing }
  | read _ h => exact h.loopKept.widen
  | write _ h => exact h.loopKept
  | close _ h =>
      have hkept := h.loopKept.widen
      exact { hkept with }
  | closed _ => exact { pcbs := .set, sendCount := sendCount_set }
  | intercept _ h => exact h.loopKept
  | frame _ => cases ha
  | takeRecved _ _ => cases ha
  | takeClose _ _ _ => cases ha
  | takeCloseUdp _ _ _ => cases ha
  | takeSend _ _ => cases ha
  | takeInput _ _ => cases ha
  | loop _ _ => cases ha
  | callback _ _ => cases ha
  | release _ _ _ => cases ha
  | _ => exact {}

/-! ### The goroutines, under the steps of the loop -/

/-- Told outside the calls of goroutines. -/
def Event.ofLoop : Event → Bool
  | .errSet _ => true
  | ev => !ev.ofGoroutine

/-- The goroutines and the buffers of their calls are as they were. -/
structure CallsKept (s t : Sys) : Prop where
  threads : t.threads = s.threads := by rfl
  bufs : t.bufs = s.bufs := by rfl
  nextWrite : t.nextWrite = s.nextWrite := by rfl
  trace : Told Event.ofLoop s.trace t.trace := by exact .nothing

theorem CloseStep.callsKept {who : Actor} {pc : ClosePc} {next : Option ClosePc}
    (h : CloseStep s who p pc t next) : CallsKept s t := by
  cases h with
  | setErr => exact { trace := .emit .nothing }
  | _ => exact {}

theorem LoopStep.callsKept {pc : LoopPc} (h : LoopStep cfg s o pc t) : CallsKept s t := by
  cases h with
  | credit _ => exact { trace := .emit .nothing }
  | dropped _ => exact { trace := .emit .nothing }
  | passed _ _ => exact { trace := .emit .nothing }
  | sendFailed _ _ _ _ _ => exact { trace := .emit .nothing }
  | sendTcp _ _ _ _ _ _ _ => exact { trace := .emit (.emit .nothing) }
  | sendUdp _ _ _ => exact { trace := .emit (.emit .nothing) }
  | sendUdpFailed _ _ _ => exact { trace := .emit .nothing }
  | netif => exact { trace := .emit .nothing }
  | push _ => exact { trace := .emit (.emit .nothing) }
  | pushUdp _ => exact { trace := .emit (.emit .nothing) }
  | close h => exact { h.callsKept with }
  | closed => exact { trace := .emit (.emit (.notify cfg.event .nothing)) }
  | _ => exact {}

/-- Told in a callback of lwIP. -/
def Event.ofCallback : Event → Bool
  | .onAccept _ | .accepted _ | .delivered .. | .dispatched .. | .recvReturned .. | .lwip ..
  | .errCallback _ => true
  | _ => false

theorem CallbackStep.told {cb : Callback} (h : CallbackStep cfg s o cb t) :
    Told Event.ofCallback s.trace t.trace := by
  cases h with
  | accept _ _ => exact .emit (.notify cfg.event (.emit .nothing))
  | recvClosed _ _ _ _ _ _ => exact .emit (.emit (.emit .nothing))
  | recvEmpty _ _ _ _ _ _ => exact .emit (.emit .nothing)
  | recv _ _ _ _ _ _ _ => exact .emit (.emit .nothing)
  | fin _ _ _ _ _ => exact .emit (.emit .nothing)
  | err _ _ _ _ _ => exact .emit (.emit (.emit .nothing))
  | sentMore _ _ _ _ _ _ _ => exact .emit (.emit .nothing)
  | sentIdle _ _ _ _ _ _ _ => exact .emit .nothing
  | sent _ _ _ _ _ _ _ _ => exact .emit .nothing
  | pollMore _ _ _ _ _ _ _ => exact .emit .nothing
  | udpNew _ _ => exact .notify cfg.event .nothing
  | _ => exact .nothing

theorem CallbackStep.callsKept {cb : Callback} (h : CallbackStep cfg s o cb t) :
    CallsKept s t where
  threads := by cases h <;> rfl
  bufs := by cases h <;> rfl
  nextWrite := by cases h <;> rfl
  trace := by
    refine h.told.mono ?_
    intro ev hev
    cases ev <;> first | rfl | cases hev

/-- A step of the reader, of the loop or of lwIP leaves the goroutines as they were. -/
theorem Step.callsKept (h : Step cfg s a t) (ha : a.ofGoroutine = false) : CallsKept s t := by
  cases h with
  | frame _ => exact { trace := .emit .nothing }
  | takeRecved _ _ => exact {}
  | takeClose _ _ _ => exact { trace := .emit .nothing }
  | takeCloseUdp _ _ _ => exact { trace := .emit .nothing }
  | takeSend _ _ => exact {}
  | takeInput _ _ => exact {}
  | loop _ h => exact h.callsKept
  | callback _ h => exact h.callsKept
  | release _ _ _ => exact {}
  | _ => cases ha

/-! ### The calls of `Write`, under the other methods -/

/-- Nobody enters, leaves or performs a step of `Write`. -/
structure WritesKept (s t : Sys) : Prop where
  threads : ∀ u p w pc, t.threads u = .write p w pc ↔ s.threads u = .write p w pc := by
    exact fun _ _ _ _ => Iff.rfl
  bufs : t.bufs = s.bufs := by rfl
  nextWrite : t.nextWrite = s.nextWrite := by rfl
  sendQueue : t.sendQueue = s.sendQueue := by rfl

theorem writes_update {threads : Tid → Thread} {th : Tid} {x : Thread}
    (hold : ∀ p w pc, threads th ≠ .write p w pc)
    (hnew : ∀ p w pc, x ≠ .write p w pc := by nofun) (u : Tid) (p : PcbId) (w : WriteId)
    (pc : WritePc) :
    Function.update threads th x u = .write p w pc ↔ threads u = .write p w pc := by
  by_cases hu : u = th
  · subst hu
    rw [Function.update_self]
    exact iff_of_false (hnew p w pc) (hold p w pc)
  · rw [Function.update_of_ne hu]

theorem ReadStep.writesKept {th : Tid} {len : Nat} {pc : ReadPc}
    (hth : s.threads th = .read p len pc) (h : ReadStep s th p len pc t) : WritesKept s t := by
  have hold : ∀ q w c, s.threads th ≠ .write q w c := by
    rw [hth]
    nofun
  cases h with
  | intercepted _ => exact {}
  | tooSmall _ _ => exact {}
  | _ => exact { threads := writes_update hold }

theorem CloseStep.writesKept {who : Actor} {pc : ClosePc} {next : Option ClosePc}
    (h : CloseStep s who p pc t next) : WritesKept s t := by
  cases h <;> exact {}

theorem InterceptStep.writesKept {th : Tid} {c : Nat} {pc : InterPc}
    (hth : s.threads th = .intercept p c pc) (h : InterceptStep s th p c pc t) :
    WritesKept s t := by
  have hold : ∀ q w c, s.threads th ≠ .write q w c := by
    rw [hth]
    nofun
  cases h with
  | closedOld _ => exact {}
  | _ => exact { threads := writes_update hold }

end LwipCs
