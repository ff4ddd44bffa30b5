import LwipCs.Interleave.Chan
import LwipCs.Interleave.Trace
import LwipCs.Lwip.TcpRaw
import Mathlib.Logic.Function.Basic
import Mathlib.Tactic.Simps.Basic

/-!
# The state of the bridge

One state covers both runtimes: the Go objects (PCBs, channels, the goroutines
inside PCB methods), the event loop of `go_netif_proc`, the C objects it drives
(`cs_tcp_raw_state`, the one UDP pcb), and what lwIP keeps about each live
`tcp_pcb`.

A goroutine or the loop stands before its next access to a shared object; code
between two such accesses runs in one step. The trace records what the bridge
does in the order it does it, and no step reads it.
-/

namespace LwipCs

open Interleave

/-- The identity of a `*PCB`. -/
abbrev PcbId := Nat

/-- A goroutine that calls PCB methods. -/
abbrev Tid := Nat

/-- One call of `PCB.Write`, and the buffer it was given. -/
abbrev WriteId := Nat

/-- The `Type` of a PCB. -/
inductive PcbType
  | tcp
  | udp
  deriving DecidableEq, Repr

/-- A `chan []byte` that can stand in `PCB.recvQueued`: the one made by `newPCB`,
or one handed to `Intercept`. -/
inductive RecvChan
  | own (p : PcbId)
  | user (c : Nat)
  deriving DecidableEq, Repr

/-- A holder of `PCB.lck`. -/
inductive Actor
  | loop
  | goroutine (t : Tid)
  deriving DecidableEq, Repr

/-- The fields `newPCB` sets and nothing changes. -/
structure Flow where
  type : PcbType
  pcb : Ptr
  state : Ptr
  localIP : IpAddr
  localPort : UInt16
  remoteIP : IpAddr
  remotePort : UInt16
  /-- the TCP connection it was made for -/
  conn : ConnId
  deriving DecidableEq, Repr

def Flow.localEnd (f : Flow) : Endpoint := ⟨f.localIP, f.localPort⟩

def Flow.remoteEnd (f : Flow) : Endpoint := ⟨f.remoteIP, f.remotePort⟩

/-- A `PCB`. Of `err` only whether it is set is ever read. -/
structure PCB extends Flow where
  err : Bool
  recvInter : Bool
  recvQueued : RecvChan
  sendWait : Chan Unit
  sendCount : Nat
  lck : Option Actor

/-- `newPCB`, for the PCB with identity `p`. -/
def newPCB (p : PcbId) (flow : Flow) : PCB :=
  { flow with
    err := false
    recvInter := false
    recvQueued := .own p
    sendWait := Chan.make 1
    sendCount := 0
    lck := none }

/-- A buffer passed to `Write`, and whether the call is still running. -/
structure Buffer where
  data : Bytes
  inUse : Bool
  deriving DecidableEq, Repr

structure SendEntry where
  pcb : PcbId
  data : WriteId
  deriving DecidableEq, Repr

structure RecvedEntry where
  pcb : PcbId
  len : Nat
  deriving DecidableEq, Repr

/-- Where `PCB.Read` stands. -/
inductive ReadPc
  | inter
  | test
  | load
  | recv (source : RecvChan)
  | errRet
  | credit (data : Bytes)
  deriving DecidableEq, Repr

/-- Where `PCB.Write` stands; `post` is the send to `sendQueue` without `lck`. -/
inductive WritePc
  | test
  | lock
  | enqueue
  | wait
  | unlock
  | post
  | ret
  deriving DecidableEq, Repr

/-- Where `PCB.close` stands. -/
inductive ClosePc
  | lock
  | test
  | setErr
  | closeRecv
  | closeWait
  | unlock
  deriving DecidableEq, Repr

/-- Where `PCB.Intercept` stands. -/
inductive InterPc
  | lock
  | test
  | set
  | closeOld
  | swap
  | unlock
  deriving DecidableEq, Repr

/-- A goroutine: idle, or inside one PCB method. `len` is the length of the
buffer passed to `Read`. -/
inductive Thread
  | idle
  | read (p : PcbId) (len : Nat) (pc : ReadPc)
  | write (p : PcbId) (w : WriteId) (pc : WritePc)
  | close (p : PcbId) (pc : ClosePc)
  | closePost (p : PcbId)
  | intercept (p : PcbId) (c : Nat) (pc : InterPc)
  deriving DecidableEq, Repr

/-- `upcb->local_ip` and `upcb->local_port` of the one UDP pcb. -/
abbrev UdpPcb := Endpoint

/-- The receive handler that is about to send on `recvQueued`, with what it
returns to. -/
inductive PushCtx
  | tcp (k : ConnId)
  | udp (src dst : Endpoint) (old : UdpPcb)
  deriving DecidableEq, Repr

/-- Where the event loop stands. In `udpSend` an entry has passed the test of `err`; in
`lwip` the loop is inside `go_cs_netif_proc` and lwIP may call back. -/
inductive LoopPc
  | select
  | credit (r : RecvedEntry)
  | send (e : SendEntry)
  | udpSend (e : SendEntry)
  | post (frame : Bytes)
  | netif
  | lwip
  | push (p : PcbId) (data : Bytes) (ctx : PushCtx) (target : Option RecvChan)
  | done (p : PcbId) (a e : Ptr) (k : ConnId)
  | close (p : PcbId) (pc : ClosePc) (a e : Ptr) (k : ConnId)
  deriving DecidableEq, Repr

/-- What lwIP keeps of a live `tcp_pcb`. The callbacks are registered exactly
while `arg` is. `unacked` counts the bytes enqueued and not yet acknowledged. -/
structure TcpPcb where
  conn : ConnId
  arg : Option Ptr
  closing : Bool
  unacked : Nat
  localEnd : Endpoint
  remoteEnd : Endpoint
  deriving DecidableEq, Repr

/-- A use of a `tcp_pcb` by the bridge. `register` and `unregister` stand for the
calls of `tcp_arg`, `tcp_recv`, `tcp_err`, `tcp_poll` and `tcp_sent` that set or
clear all of them; `rawSend` for the `tcp_write` calls of one `cs_tcp_raw_send`
and the `tcp_output` that ends it. -/
inductive LwipCall
  | register
  | unregister
  | sent
  | rawSend (attempts : Nat) (wrote : Bytes)
  | recved (n : Nat)
  | close
  deriving DecidableEq, Repr

/-- Why the process ended. -/
inductive Panic
  | intercepted
  | bufferTooSmall
  | sendOnClosed
  | closeOfClosed
  | indexOutOfRange
  | assertion
  | useAfterFree
  deriving DecidableEq, Repr

inductive Event
  /-- `Event.OnAccept(p)` -/
  | onAccept (p : PcbId)
  /-- `Event.OnClose(p)` -/
  | onClose (p : PcbId)
  /-- `cs_tcp_raw_accept` got a state object and called `go_tcp_accept_h` -/
  | accepted (k : ConnId)
  /-- `go_tcp_accept_h` found an entry under the state's address -/
  | rejected (k : ConnId)
  /-- a Go handler found `p` for a callback of the connection -/
  | dispatched (k : ConnId) (p : PcbId)
  /-- lwIP handed data to `cs_tcp_raw_recv` -/
  | delivered (k : ConnId) (data : Bytes)
  /-- `cs_tcp_raw_recv` returned, the pbuf having been freed so often -/
  | recvReturned (k : ConnId) (frees : Nat) (ret : ErrT)
  /-- a receive handler sent on `recvQueued` -/
  | queued (p : PcbId) (data : Bytes)
  /-- a datagram was queued on `p` -/
  | udpQueued (p : PcbId) (src dst : Endpoint) (data : Bytes)
  /-- the entry of `p` in `closeQueue` was handled -/
  | udpRemoved (p : PcbId) (key : Key)
  /-- `p.err` was set -/
  | errSet (p : PcbId)
  | readOk (t : Tid) (p : PcbId) (data : Bytes)
  | readErr (t : Tid) (p : PcbId)
  /-- `Read` returned no bytes and no error -/
  | readNil (t : Tid) (p : PcbId)
  /-- a `Write` took `lck` -/
  | locked (p : PcbId) (w : WriteId) (data : Bytes)
  | enqueued (p : PcbId) (w : WriteId)
  /-- a `Write` came back from `<-p.sendWait` -/
  | released (p : PcbId) (w : WriteId) (data : Bytes)
  | writeRet (p : PcbId) (w : WriteId) (data : Bytes) (ok : Bool)
  | closeCalled (t : Tid) (p : PcbId)
  /-- `Send` found `err` set -/
  | dropped (p : PcbId) (w : WriteId)
  /-- `Send` found `err` not set on a UDP PCB -/
  | passed (p : PcbId) (w : WriteId)
  | charSend (p : PcbId) (w : WriteId) (ret : Nat)
  /-- the arguments of `cs_udp_char_sendto` -/
  | udpCharSendto (p : PcbId) (w : WriteId) (laddr raddr : Endpoint) (data : Bytes)
  /-- the arguments of `udp_sendto_if_src` -/
  | udpSendtoIfSrc (src dst : Endpoint) (data : Bytes)
  | lwip (k : ConnId) (a : Ptr) (call : LwipCall)
  /-- `cs_tcp_raw_close` has called `tcp_close` -/
  | rawClosed (k : ConnId)
  /-- lwIP invoked the error callback -/
  | errCallback (k : ConnId)
  | frameRead (frame : Bytes)
  | netifInput (frame : Bytes)
  deriving DecidableEq, Repr

structure Sys where
  pcbs : PcbId → PCB
  nextPcb : PcbId
  chans : RecvChan → Chan Bytes
  threads : Tid → Thread
  bufs : WriteId → Buffer
  nextWrite : WriteId
  tcpPcbs : Ptr → Option PcbId
  udpPcbs : Key → Option PcbId
  inputQueue : Chan Bytes
  inputQueue2 : Chan Bytes
  recvedQueue : Chan RecvedEntry
  sendQueue : Chan SendEntry
  closeQueue : Chan PcbId
  loop : LoopPc
  heap : Ptr → Option RawState
  tpcbs : Ptr → Option TcpPcb
  nextConn : ConnId
  upcb : UdpPcb
  trace : List Event
  panic : Option Panic

/-- The capacity of every queue of the package and of `recvQueued`. -/
def queueCap : Nat := 1024

/-- What does not change while the program runs: the host, the pbuf functions of lwIP,
whether `Event` is set, and the capacities of the channels handed to `Intercept`,
which are buffered. -/
structure Config where
  host : Host
  lwip : Lwip
  event : Bool
  userCap : Nat → Nat
  userCap_pos : ∀ c, 0 < userCap c

/-- The state in which `go_netif_proc` enters its loop. -/
def Sys.init (cfg : Config) : Sys where
  pcbs p := newPCB p ⟨.udp, 0, 0, .v4 0, 0, .v4 0, 0, 0⟩
  nextPcb := 0
  chans
    | .own _ => Chan.make queueCap
    | .user c => Chan.make (cfg.userCap c)
  threads _ := .idle
  bufs _ := ⟨[], false⟩
  nextWrite := 0
  tcpPcbs _ := none
  udpPcbs _ := none
  inputQueue := Chan.make queueCap
  inputQueue2 := Chan.make queueCap
  recvedQueue := Chan.make queueCap
  sendQueue := Chan.make queueCap
  closeQueue := Chan.make queueCap
  loop := .select
  heap _ := none
  tpcbs _ := none
  nextConn := 0
  upcb := ⟨.v4 0, 7⟩
  trace := []
  panic := none

/-! ### Updates -/

section

variable {α β γ : Type*} [DecidableEq α]

/-- A new value that agrees with the old one in a field changes that field nowhere. -/
theorem update_field {g : α → β} {a : α} {x : β} (f : β → γ) (h : f x = f (g a)) (b : α) :
    f (Function.update g a x b) = f (g b) := by
  by_cases hb : b = a
  · subst hb
    rw [Function.update_self, h]
  · rw [Function.update_of_ne hb]

/-- What an updated table maps to: the new value, or what it mapped to elsewhere. -/
theorem update_cases {f : α → Option β} {a b : α} {v w : β}
    (h : Function.update f a (some v) b = some w) : (b = a ∧ w = v) ∨ (b ≠ a ∧ f b = some w) := by
  by_cases hb : b = a
  · subst hb
    rw [Function.update_self] at h
    cases h
    exact Or.inl ⟨rfl, rfl⟩
  · rw [Function.update_of_ne hb] at h
    exact Or.inr ⟨hb, h⟩

theorem flow_update {pcbs : PcbId → PCB} {p : PcbId} {x : PCB}
    (hflow : x.toFlow = (pcbs p).toFlow) (q : PcbId) :
    (Function.update pcbs p x q).toFlow = (pcbs q).toFlow :=
  update_field PCB.toFlow hflow q

end

/-- PCBs with the same fixed fields, none of them opened again. -/
structure PcbsKept (old new : PcbId → PCB) : Prop where
  flow : ∀ p, (new p).toFlow = (old p).toFlow
  isOpen : ∀ p, (new p).err = false → (old p).err = false

namespace PcbsKept

variable {old : PcbId → PCB}

theorem refl : PcbsKept old old := ⟨fun _ => rfl, fun _ => id⟩

theorem set {p : PcbId} {x : PCB} (hflow : x.toFlow = (old p).toFlow := by rfl)
    (hopen : x.err = false → (old p).err = false := by exact id) :
    PcbsKept old (Function.update old p x) := by
  refine ⟨flow_update hflow, ?_⟩
  intro q
  by_cases hq : q = p
  · subst hq
    rw [Function.update_self]
    exact hopen
  · rw [Function.update_of_ne hq]
    exact id

end PcbsKept

namespace Sys

@[simps -fullyApplied]
def setPcb (s : Sys) (p : PcbId) (x : PCB) : Sys :=
  { s with pcbs := Function.update s.pcbs p x }

/-- Store a PCB just made. -/
@[simps -fullyApplied]
def addPcb (s : Sys) (x : PCB) : Sys :=
  { s with pcbs := Function.update s.pcbs s.nextPcb x, nextPcb := s.nextPcb + 1 }

@[simps -fullyApplied]
def setChan (s : Sys) (r : RecvChan) (c : Chan Bytes) : Sys :=
  { s with chans := Function.update s.chans r c }

@[simps -fullyApplied]
def setThread (s : Sys) (t : Tid) (th : Thread) : Sys :=
  { s with threads := Function.update s.threads t th }

@[simps -fullyApplied]
def setBuf (s : Sys) (w : WriteId) (b : Buffer) : Sys :=
  { s with bufs := Function.update s.bufs w b }

/-- Store the buffer of a new call of `Write`. -/
@[simps -fullyApplied]
def addBuf (s : Sys) (b : Buffer) : Sys :=
  { s with bufs := Function.update s.bufs s.nextWrite b, nextWrite := s.nextWrite + 1 }

@[simps -fullyApplied]
def setTcp (s : Sys) (e : Ptr) (p : Option PcbId) : Sys :=
  { s with tcpPcbs := Function.update s.tcpPcbs e p }

@[simps -fullyApplied]
def setUdp (s : Sys) (key : Key) (p : Option PcbId) : Sys :=
  { s with udpPcbs := Function.update s.udpPcbs key p }

@[simps -fullyApplied]
def setHeap (s : Sys) (e : Ptr) (es : Option RawState) : Sys :=
  { s with heap := Function.update s.heap e es }

@[simps -fullyApplied]
def setTpcb (s : Sys) (a : Ptr) (x : Option TcpPcb) : Sys :=
  { s with tpcbs := Function.update s.tpcbs a x }

@[simps -fullyApplied]
def newConn (s : Sys) : Sys := { s with nextConn := s.nextConn + 1 }

@[simps -fullyApplied]
def setUpcb (s : Sys) (upcb : UdpPcb) : Sys := { s with upcb := upcb }

@[simps -fullyApplied]
def setInputQueue (s : Sys) (q : Chan Bytes) : Sys := { s with inputQueue := q }

@[simps -fullyApplied]
def setInputQueue2 (s : Sys) (q : Chan Bytes) : Sys := { s with inputQueue2 := q }

@[simps -fullyApplied]
def setRecvedQueue (s : Sys) (q : Chan RecvedEntry) : Sys := { s with recvedQueue := q }

@[simps -fullyApplied]
def setSendQueue (s : Sys) (q : Chan SendEntry) : Sys := { s with sendQueue := q }

@[simps -fullyApplied]
def setCloseQueue (s : Sys) (q : Chan PcbId) : Sys := { s with closeQueue := q }

@[simps -fullyApplied]
def goto (s : Sys) (pc : LoopPc) : Sys := { s with loop := pc }

@[simps -fullyApplied]
def emit (s : Sys) (ev : Event) : Sys := { s with trace := s.trace ++ [ev] }

/-- `if Event != nil { Event.… }` -/
@[simps -fullyApplied]
def notify (cfg : Config) (s : Sys) (ev : Event) : Sys :=
  { s with trace := s.trace ++ if cfg.event then [ev] else [] }

@[simps -fullyApplied]
def crash (s : Sys) (why : Panic) : Sys := { s with panic := some why }

end Sys

end LwipCs
