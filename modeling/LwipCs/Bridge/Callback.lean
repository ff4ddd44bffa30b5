import LwipCs.Bridge.Goroutine

/-!
# The callbacks of lwIP

The functions of `tcp.c` and `udp.c` that lwIP calls, and the exported Go handlers
they call in turn. A handler runs until its next access to an object it shares
with goroutines, and leaves the loop standing there; the rest of the callback is
performed from that place. What lwIP's own functions answer comes with the action.
-/

namespace LwipCs

open Interleave

/-- The answers of lwIP during one step: whether `pbuf_alloc` succeeds, the value
of `tcp_sndbuf`, the results of `tcp_write`, and whether `tcp_close` releases the
pcb at once. -/
structure Outcomes where
  alloc : Bool
  sndbuf : Nat
  writes : List ErrT
  frees : Bool
  deriving DecidableEq, Repr

/-- A callback of lwIP; on a TCP connection it names the pcb. -/
inductive Callback
  | accept (newpcb : Option Ptr) (err : ErrT) (mem : Option Ptr) (localEnd remoteEnd : Endpoint)
  | recv (a : Ptr) (p : Option Bytes) (err : ErrT)
  | sent (a : Ptr) (len : Nat)
  | poll (a : Ptr)
  | err (a : Ptr)
  | udp (src dst : Endpoint) (p : Option Bytes)
  deriving DecidableEq, Repr

namespace Sys

/-! ### lwIP's own functions -/

/-- `tcp_close`. In each call lwIP decides whether it releases the pcb (`frees`), and when
it does so later; on a pointer to no live pcb it does nothing the bridge could see. -/
def tcpClose (s : Sys) (k : ConnId) (a : Ptr) (o : Outcomes) : Sys :=
  (s.setTpcb a ((s.tpcbs a).bind fun x =>
    if o.frees then none else some { x with closing := true })).emit (.lwip k a .close)

/-- The five calls with `NULL` that open `cs_tcp_raw_close`. -/
def unregister (s : Sys) (k : ConnId) (a : Ptr) : Sys :=
  (s.setTpcb a ((s.tpcbs a).map fun x => { x with arg := none })).emit (.lwip k a .unregister)

/-- `cs_tcp_raw_send` on the state object at `e`. -/
def rawSend (cfg : Config) (s : Sys) (a e : Ptr) (es : RawState) (o : Outcomes) : Sys :=
  let run := csTcpRawSend cfg.lwip es.p o.sndbuf o.writes
  ((s.setHeap e (some { es with p := run.p })).setTpcb a ((s.tpcbs a).map fun x =>
    { x with unacked := x.unacked + run.wrote.flatten.length })).emit
      (.lwip es.conn a (.rawSend run.attempts run.wrote.flatten))

/-- Reading a state object through a pointer. -/
def withRaw (s : Sys) (e : Ptr) (f : RawState → Sys) : Sys :=
  match s.heap e with
  | some es => f es
  | none => s.crash .useAfterFree

/-! ### Closing -/

/-- The end of `cs_tcp_raw_close`: `cs_tcp_raw_free` and `tcp_close`. -/
def rawCloseEnd (s : Sys) (a e : Ptr) (k : ConnId) (o : Outcomes) : Sys :=
  (((s.setHeap e none).tcpClose k a o).emit (.rawClosed k)).goto .lwip

/-- `go_tcp_close_h` up to the lock taken by `pcb.close()`. -/
def goTcpCloseH (s : Sys) (a e : Ptr) (k : ConnId) (o : Outcomes) : Sys :=
  match s.tcpPcbs e with
  | none => s.rawCloseEnd a e k o
  | some p => ((s.emit (.dispatched k p)).setTcp e none).goto (.close p .lock a e k)

/-- `cs_tcp_raw_close`. -/
def csTcpRawClose (s : Sys) (a e : Ptr) (k : ConnId) (o : Outcomes) : Sys :=
  (s.unregister k a).goTcpCloseH a e k o

/-- The loop after `pcb.close()` returned in `go_tcp_close_h`. -/
def closeReturned (cfg : Config) (s : Sys) (p : PcbId) (a e : Ptr) (k : ConnId)
    (o : Outcomes) : Sys :=
  (s.notify cfg (.onClose p)).rawCloseEnd a e k o

/-- `cs_tcp_raw_error`; lwIP has released the pcb before. -/
def csTcpRawError (s : Sys) (e : Ptr) (o : Outcomes) : Sys :=
  s.withRaw e fun es => s.csTcpRawClose es.pcb e es.conn o

/-! ### Accepting -/

/-- `go_tcp_accept_h`. -/
def goTcpAcceptH (cfg : Config) (s : Sys) (newpcb state : Ptr) (k : ConnId)
    (localEnd remoteEnd : Endpoint) : Sys :=
  match s.tcpPcbs state with
  | some _ => s.emit (.rejected k)
  | none =>
      let p := s.nextPcb
      let s := (s.addPcb (newPCB p ⟨.tcp, newpcb, state, localEnd.ip, localEnd.port,
        remoteEnd.ip, remoteEnd.port, k⟩)).setTcp state (some p)
      s.notify cfg (.onAccept p)

/-- `cs_tcp_raw_accept`, given the answer of `mem_malloc`. It ignores what the Go
handler returns. -/
def csTcpRawAccept (cfg : Config) (s : Sys) (newpcb : Option Ptr) (err : ErrT) (mem : Option Ptr)
    (localEnd remoteEnd : Endpoint) : Sys :=
  match newpcb, mem with
  | some a, some e =>
      if err ≠ .ok then s
      else
        let k := s.nextConn
        let s := (s.newConn.setHeap e (some ⟨.accepted, a, [], k⟩)).setTpcb a
          (some ⟨k, some e, false, 0, localEnd, remoteEnd⟩)
        ((s.emit (.lwip k a .register)).goTcpAcceptH cfg a e k localEnd remoteEnd).emit
          (.accepted k)
  | _, _ => s

/-! ### Receiving -/

/-- `go_cs_tcp_recv_h` frees the pbuf once, whatever it returns. -/
def recvReturn (s : Sys) (k : ConnId) (ret : ErrT) : Sys :=
  (s.emit (.recvReturned k 1 ret)).goto .lwip

/-- `go_tcp_recv_h` up to its send on `recvQueued`. -/
def goTcpRecvH (s : Sys) (e : Ptr) (k : ConnId) (data : Bytes) : Sys :=
  match s.tcpPcbs e with
  | none => s.recvReturn k .other
  | some p =>
      let s := s.emit (.dispatched k p)
      if (s.pcbs p).err then s.recvReturn k .other
      else if data = [] then s.crash .indexOutOfRange
      else s.goto (.push p data (.tcp k) none)

/-- `cs_tcp_raw_recv`; without a pbuf the peer has closed. -/
def csTcpRawRecv (s : Sys) (a e : Ptr) (p : Option Bytes) (err : ErrT) (o : Outcomes) : Sys :=
  s.withRaw e fun es =>
    match p with
    | none =>
        (s.setHeap e (some { es with state := .closing })).csTcpRawClose a e es.conn o
    | some data =>
        if err ≠ .ok then s.crash .assertion
        else
          let s := s.emit (.delivered es.conn data)
          match es.state with
          | .accepted =>
              (s.setHeap e (some { es with state := .received })).goTcpRecvH e es.conn data
          | .received => s.goTcpRecvH e es.conn data
          | _ => (s.emit (.lwip es.conn a (.recved (u16 data.length)))).recvReturn es.conn .ok

/-! ### Sending -/

/-- `cs_tcp_send` after `es->callback->tcp_send_done` returned. -/
def sentReturned (s : Sys) (a e : Ptr) (o : Outcomes) : Sys :=
  s.withRaw e fun es =>
    if es.state = .closing then s.csTcpRawClose a e es.conn o else s.goto .lwip

/-- `go_tcp_send_done_h` up to its send on `sendWait`, and the rest of
`cs_tcp_send` where it returns earlier. -/
def goTcpSendDoneH (s : Sys) (a e : Ptr) (k : ConnId) (o : Outcomes) : Sys :=
  match s.tcpPcbs e with
  | none => s.sentReturned a e o
  | some p =>
      let s := s.emit (.dispatched k p)
      if (s.pcbs p).err then s.sentReturned a e o
      else if 0 < (s.pcbs p).sendCount then
        (s.setPcb p { s.pcbs p with sendCount := (s.pcbs p).sendCount - 1 }).goto (.done p a e k)
      else s.sentReturned a e o

/-- `cs_tcp_send`, the sent callback. -/
def csTcpSend (cfg : Config) (s : Sys) (a e : Ptr) (o : Outcomes) : Sys :=
  s.withRaw e fun es =>
    if es.p ≠ [] then ((s.emit (.lwip es.conn a .sent)).rawSend cfg a e es o).goto .lwip
    else s.goTcpSendDoneH a e es.conn o

/-- `cs_tcp_raw_poll`. -/
def csTcpRawPoll (cfg : Config) (s : Sys) (a e : Ptr) (o : Outcomes) : Sys :=
  s.withRaw e fun es =>
    if es.p ≠ [] then (s.rawSend cfg a e es o).goto .lwip
    else if es.state = .closing then s.csTcpRawClose a e es.conn o
    else s.goto .lwip

/-! ### Datagrams -/

/-- `go_udp_recv_h` up to its send on `recvQueued`. It has no test of `err`. -/
def goUdpRecvH (cfg : Config) (s : Sys) (src dst : Endpoint) (data : Bytes) (old : UdpPcb) : Sys :=
  if data = [] then s.crash .indexOutOfRange
  else
    let key := udpKey cfg.host src
    match s.udpPcbs key with
    | some p => s.goto (.push p data (.udp src dst old) none)
    | none =>
        let p := s.nextPcb
        let s := (s.addPcb (newPCB p ⟨.udp, 0, 0, s.upcb.ip, s.upcb.port, src.ip, src.port,
          0⟩)).setUdp key (some p)
        (s.notify cfg (.onAccept p)).goto (.push p data (.udp src dst old) none)

/-- The patched `udp_input` stores the destination in the pcb around the receive
callback, here `cs_udp_raw_recv`. -/
def udpInput (cfg : Config) (s : Sys) (src dst : Endpoint) (p : Option Bytes) : Sys :=
  match p with
  | none => s
  | some data => (s.setUpcb dst).goUdpRecvH cfg src dst data s.upcb

/-- `cs_udp_char_sendto` and `cs_udp_sendto`: the local address of the one pcb is
replaced around the send. -/
def csUdpCharSendto (s : Sys) (laddr raddr : Endpoint) (data : Bytes) (o : Outcomes) : Sys :=
  if o.alloc then
    let old := s.upcb
    let s := s.setUpcb laddr
    (s.emit (.udpSendtoIfSrc s.upcb raddr (accepted data))).setUpcb old
  else s

end Sys

end LwipCs
