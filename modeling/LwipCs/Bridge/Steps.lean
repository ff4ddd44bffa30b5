import LwipCs.Bridge.GoSteps
import LwipCs.Bridge.Known
import LwipCs.Bridge.Table

/-!
# Everything the bridge can do

`Step cfg s a t` lists the steps of the whole system with their results. A state
in which the table is in order has no other steps: callbacks find the object and
the PCB of their connection, and no object is closed twice. Every invariant of
the development is a case analysis of this relation.
-/

namespace LwipCs

open Interleave

/-- The steps of the loop that involve no callback. -/
inductive LoopStep (cfg : Config) (s : Sys) (o : Outcomes) : LoopPc → Sys → Prop
  | creditClosed {r : RecvedEntry} (herr : (s.pcbs r.pcb).err = true) :
      LoopStep cfg s o (.credit r) { s with loop := .select }
  | credit {r : RecvedEntry} (herr : (s.pcbs r.pcb).err = false) :
      LoopStep cfg s o (.credit r)
        { s with
          trace := s.trace ++
            [.lwip (s.pcbs r.pcb).conn (s.pcbs r.pcb).pcb (.recved (u16 r.len))]
          loop := .select }
  | dropped {p : PcbId} {w : WriteId} (herr : (s.pcbs p).err = true) :
      LoopStep cfg s o (.send ⟨p, w⟩)
        { s with trace := s.trace ++ [.dropped p w], loop := .select }
  | sendEmpty {p : PcbId} {w : WriteId} (hdata : (s.bufs w).data = []) :
      LoopStep cfg s o (.send ⟨p, w⟩) { s with panic := some .indexOutOfRange }
  /-- a datagram has passed the test of `err` -/
  | passed {p : PcbId} {w : WriteId} (herr : (s.pcbs p).err = false)
      (htype : (s.pcbs p).type = .udp) :
      LoopStep cfg s o (.send ⟨p, w⟩)
        { s with trace := s.trace ++ [.passed p w], loop := .udpSend ⟨p, w⟩ }
  | udpSendEmpty {p : PcbId} {w : WriteId} (hdata : (s.bufs w).data = []) :
      LoopStep cfg s o (.udpSend ⟨p, w⟩) { s with panic := some .indexOutOfRange }
  /-- `cs_tcp_char_send` returned early: 100 with data pending, 1 without a pbuf -/
  | sendFailed {p : PcbId} {w : WriteId} {es : RawState} {ret : Nat}
      (herr : (s.pcbs p).err = false) (htype : (s.pcbs p).type = .tcp)
      (hdata : (s.bufs w).data ≠ []) (hes : s.heap (s.pcbs p).state = some es)
      (hret : (es.p ≠ [] ∧ ret = 100) ∨ (es.p = [] ∧ o.alloc = false ∧ ret = 1)) :
      LoopStep cfg s o (.send ⟨p, w⟩)
        { s with
          pcbs := Function.update s.pcbs p
            { s.pcbs p with sendCount := (s.pcbs p).sendCount + 1 }
          trace := s.trace ++ [.charSend p w ret]
          loop := .select }
  | sendTcp {p : PcbId} {w : WriteId} {es : RawState} {run : SendRun}
      (herr : (s.pcbs p).err = false) (htype : (s.pcbs p).type = .tcp)
      (hdata : (s.bufs w).data ≠ []) (hes : s.heap (s.pcbs p).state = some es)
      (hp : es.p = []) (halloc : o.alloc = true)
      (hrun : csTcpRawSend cfg.lwip (charChain cfg.lwip (s.bufs w).data) o.sndbuf o.writes = run) :
      LoopStep cfg s o (.send ⟨p, w⟩)
        { s with
          pcbs := Function.update s.pcbs p
            { s.pcbs p with sendCount := (s.pcbs p).sendCount + 1 }
          heap := Function.update s.heap (s.pcbs p).state (some { es with p := run.p })
          tpcbs := Function.update s.tpcbs (s.pcbs p).pcb ((s.tpcbs (s.pcbs p).pcb).map fun x =>
            { x with unacked := x.unacked + run.wrote.flatten.length })
          trace := s.trace ++
            [.lwip es.conn (s.pcbs p).pcb (.rawSend run.attempts run.wrote.flatten)] ++
              [.charSend p w 0]
          loop := .select }
  | sendUdp {p : PcbId} {w : WriteId} (htype : (s.pcbs p).type = .udp)
      (hdata : (s.bufs w).data ≠ []) (halloc : o.alloc = true) :
      LoopStep cfg s o (.udpSend ⟨p, w⟩)
        { s with
          trace := s.trace ++
            [.udpCharSendto p w (s.pcbs p).localEnd (s.pcbs p).remoteEnd (s.bufs w).data] ++
              [.udpSendtoIfSrc (s.pcbs p).localEnd (s.pcbs p).remoteEnd
                (accepted (s.bufs w).data)]
          loop := .select }
  | sendUdpFailed {p : PcbId} {w : WriteId} (htype : (s.pcbs p).type = .udp)
      (hdata : (s.bufs w).data ≠ []) (halloc : o.alloc = false) :
      LoopStep cfg s o (.udpSend ⟨p, w⟩)
        { s with
          trace := s.trace ++
            [.udpCharSendto p w (s.pcbs p).localEnd (s.pcbs p).remoteEnd (s.bufs w).data]
          loop := .select }
  | post {frame : Bytes} {q : Chan Bytes} (hsend : s.inputQueue2.send frame = .done q) :
      LoopStep cfg s o (.post frame) { s with inputQueue2 := q, loop := .netif }
  | netif {q : Chan Bytes} {frame : Bytes} :
      LoopStep cfg s o .netif
        { s with inputQueue2 := q, trace := s.trace ++ [.netifInput frame], loop := .lwip }
  | netifNone {q : Chan Bytes} :
      LoopStep cfg s o .netif { s with inputQueue2 := q, loop := .lwip }
  | leave : LoopStep cfg s o .lwip { s with loop := .select }
  | target {p : PcbId} {data : Bytes} {ctx : PushCtx} :
      LoopStep cfg s o (.push p data ctx none)
        { s with loop := .push p data ctx (some (s.pcbs p).recvQueued) }
  | pushClosed {p : PcbId} {data : Bytes} {ctx : PushCtx} {r : RecvChan}
      (hclosed : (s.chans r).closed = true) :
      LoopStep cfg s o (.push p data ctx (some r)) { s with panic := some .sendOnClosed }
  | push {p : PcbId} {data : Bytes} {k : ConnId} {r : RecvChan} {ch : Chan Bytes}
      (hsend : (s.chans r).send data = .done ch) :
      LoopStep cfg s o (.push p data (.tcp k) (some r))
        { s with
          chans := Function.update s.chans r ch
          trace := s.trace ++ [.queued p data] ++ [.recvReturned k 1 .ok]
          loop := .lwip }
  | pushUdp {p : PcbId} {data : Bytes} {src dst : Endpoint} {old : UdpPcb} {r : RecvChan}
      {ch : Chan Bytes} (hsend : (s.chans r).send data = .done ch) :
      LoopStep cfg s o (.push p data (.udp src dst old) (some r))
        { s with
          chans := Function.update s.chans r ch
          trace := s.trace ++ [.queued p data] ++ [.udpQueued p src dst data]
          upcb := old
          loop := .lwip }
  | doneClosed {p : PcbId} {a e : Ptr} {k : ConnId} (hclosed : (s.pcbs p).sendWait.closed = true) :
      LoopStep cfg s o (.done p a e k) { s with panic := some .sendOnClosed }
  | done {p : PcbId} {a e : Ptr} {k : ConnId} {ch : Chan Unit}
      (hsend : (s.pcbs p).sendWait.send () = .done ch) :
      LoopStep cfg s o (.done p a e k)
        { s with
          pcbs := Function.update s.pcbs p { s.pcbs p with sendWait := ch }
          loop := .lwip }
  | close {p : PcbId} {pc pc' : ClosePc} {a e : Ptr} {k : ConnId} {s' : Sys}
      (hclose : CloseStep s .loop p pc s' (some pc')) :
      LoopStep cfg s o (.close p pc a e k) { s' with loop := .close p pc' a e k }
  /-- `pcb.close()` returned: `Event.OnClose`, `cs_tcp_raw_free` and `tcp_close` -/
  | closed {p : PcbId} {a e : Ptr} {k : ConnId} :
      LoopStep cfg s o (.close p .unlock a e k)
        { s with
          pcbs := Function.update s.pcbs p { s.pcbs p with lck := none }
          heap := Function.update s.heap e none
          tpcbs := Function.update s.tpcbs a ((s.tpcbs a).bind fun x =>
            if o.frees then none else some { x with closing := true })
          trace := s.trace ++ (if cfg.event then [.onClose p] else []) ++ [.lwip k a .close] ++
            [.rawClosed k]
          loop := .lwip }

/-- A refused accept, a poll with nothing to send, a datagram without a pbuf. -/
def Callback.mayIgnore : Callback → Bool
  | .accept .. | .poll _ | .udp _ _ none => true
  | _ => false

/-- The steps of the callbacks, in a state whose table is in order. -/
inductive CallbackStep (cfg : Config) (s : Sys) (o : Outcomes) : Callback → Sys → Prop
  | ignored {cb : Callback} (hcb : cb.mayIgnore = true := by rfl) : CallbackStep cfg s o cb s
  | accept {a e : Ptr} {localEnd remoteEnd : Endpoint} (ha : s.tpcbs a = none)
      (he : s.heap e = none) :
      CallbackStep cfg s o (.accept (some a) .ok (some e) localEnd remoteEnd)
        { s with
          pcbs := Function.update s.pcbs s.nextPcb (newPCB s.nextPcb ⟨.tcp, a, e, localEnd.ip,
            localEnd.port, remoteEnd.ip, remoteEnd.port, s.nextConn⟩)
          nextPcb := s.nextPcb + 1
          tcpPcbs := Function.update s.tcpPcbs e (some s.nextPcb)
          heap := Function.update s.heap e (some ⟨.accepted, a, [], s.nextConn⟩)
          tpcbs := Function.update s.tpcbs a
            (some ⟨s.nextConn, some e, false, 0, localEnd, remoteEnd⟩)
          nextConn := s.nextConn + 1
          trace := s.trace ++ [.lwip s.nextConn a .register] ++
            (if cfg.event then [.onAccept s.nextPcb] else []) ++ [.accepted s.nextConn] }
  | assertion {a : Ptr} {data : Bytes} {err : ErrT} (herr : err ≠ .ok) :
      CallbackStep cfg s o (.recv a (some data) err) { s with panic := some .assertion }
  | recvClosed {a e : Ptr} {p : PcbId} {x : TcpPcb} {es : RawState} {data : Bytes}
      (ha : s.tpcbs a = some x) (harg : x.arg = some e) (hp : s.tcpPcbs e = some p)
      (hes : s.heap e = some es) (hconn : es.conn = x.conn) (herr : (s.pcbs p).err = true) :
      CallbackStep cfg s o (.recv a (some data) .ok)
        { s with
          heap := Function.update s.heap e (some { es with state := .received })
          trace := s.trace ++ [.delivered es.conn data] ++ [.dispatched es.conn p] ++
            [.recvReturned es.conn 1 .other]
          loop := .lwip }
  | recvEmpty {a e : Ptr} {p : PcbId} {x : TcpPcb} {es : RawState}
      (ha : s.tpcbs a = some x) (harg : x.arg = some e) (hp : s.tcpPcbs e = some p)
      (hes : s.heap e = some es) (hconn : es.conn = x.conn) (herr : (s.pcbs p).err = false) :
      CallbackStep cfg s o (.recv a (some []) .ok)
        { s with
          heap := Function.update s.heap e (some { es with state := .received })
          trace := s.trace ++ [.delivered es.conn []] ++ [.dispatched es.conn p]
          panic := some .indexOutOfRange }
  | recv {a e : Ptr} {p : PcbId} {x : TcpPcb} {es : RawState} {data : Bytes}
      (ha : s.tpcbs a = some x) (harg : x.arg = some e) (hp : s.tcpPcbs e = some p)
      (hes : s.heap e = some es) (hconn : es.conn = x.conn) (herr : (s.pcbs p).err = false)
      (hdata : data ≠ []) :
      CallbackStep cfg s o (.recv a (some data) .ok)
        { s with
          heap := Function.update s.heap e (some { es with state := .received })
          trace := s.trace ++ [.delivered es.conn data] ++ [.dispatched es.conn p]
          loop := .push p data (.tcp es.conn) none }
  /-- the peer's FIN, up to the lock taken by `pcb.close()` -/
  | fin {a e : Ptr} {p : PcbId} {x : TcpPcb} {es : RawState} {err : ErrT}
      (ha : s.tpcbs a = some x) (harg : x.arg = some e) (hp : s.tcpPcbs e = some p)
      (hes : s.heap e = some es) (hconn : es.conn = x.conn) :
      CallbackStep cfg s o (.recv a none err)
        { s with
          tcpPcbs := Function.update s.tcpPcbs e none
          heap := Function.update s.heap e (some { es with state := .closing })
          tpcbs := Function.update s.tpcbs a (some { x with arg := none })
          trace := s.trace ++ [.lwip es.conn a .unregister] ++ [.dispatched es.conn p]
          loop := .close p .lock a e es.conn }
  | err {a e : Ptr} {p : PcbId} {x : TcpPcb} {es : RawState}
      (ha : s.tpcbs a = some x) (harg : x.arg = some e) (hp : s.tcpPcbs e = some p)
      (hes : s.heap e = some es) (hconn : es.conn = x.conn) :
      CallbackStep cfg s o (.err a)
        { s with
          tcpPcbs := Function.update s.tcpPcbs e none
          tpcbs := Function.update s.tpcbs a none
          trace := s.trace ++ [.errCallback x.conn] ++ [.lwip es.conn a .unregister] ++
            [.dispatched es.conn p]
          loop := .close p .lock a e es.conn }
  | sentMore {a e : Ptr} {p : PcbId} {x : TcpPcb} {es : RawState} {len : Nat} {run : SendRun}
      (ha : s.tpcbs a = some x) (harg : x.arg = some e) (hp : s.tcpPcbs e = some p)
      (hes : s.heap e = some es) (hconn : es.conn = x.conn) (hpending : es.p ≠ [])
      (hrun : csTcpRawSend cfg.lwip es.p o.sndbuf o.writes = run) :
      CallbackStep cfg s o (.sent a len)
        { s with
          heap := Function.update s.heap e (some { es with p := run.p })
          tpcbs := Function.update s.tpcbs a
            (some { x with unacked := x.unacked - len + run.wrote.flatten.length })
          trace := s.trace ++ [.lwip es.conn a .sent] ++
            [.lwip es.conn a (.rawSend run.attempts run.wrote.flatten)]
          loop := .lwip }
  | sentIdle {a e : Ptr} {p : PcbId} {x : TcpPcb} {es : RawState} {len : Nat}
      (ha : s.tpcbs a = some x) (harg : x.arg = some e) (hp : s.tcpPcbs e = some p)
      (hes : s.heap e = some es) (hconn : es.conn = x.conn) (hidle : es.p = [])
      (hcount : (s.pcbs p).err = true ∨ (s.pcbs p).sendCount = 0) :
      CallbackStep cfg s o (.sent a len)
        { s with
          tpcbs := Function.update s.tpcbs a (some { x with unacked := x.unacked - len })
          trace := s.trace ++ [.dispatched es.conn p]
          loop := .lwip }
  | sent {a e : Ptr} {p : PcbId} {x : TcpPcb} {es : RawState} {len : Nat}
      (ha : s.tpcbs a = some x) (harg : x.arg = some e) (hp : s.tcpPcbs e = some p)
      (hes : s.heap e = some es) (hconn : es.conn = x.conn) (hidle : es.p = [])
      (herr : (s.pcbs p).err = false) (hcount : 0 < (s.pcbs p).sendCount) :
      CallbackStep cfg s o (.sent a len)
        { s with
          pcbs := Function.update s.pcbs p
            { s.pcbs p with sendCount := (s.pcbs p).sendCount - 1 }
          tpcbs := Function.update s.tpcbs a (some { x with unacked := x.unacked - len })
          trace := s.trace ++ [.dispatched es.conn p]
          loop := .done p a e es.conn }
  | pollMore {a e : Ptr} {p : PcbId} {x : TcpPcb} {es : RawState} {run : SendRun}
      (ha : s.tpcbs a = some x) (harg : x.arg = some e) (hp : s.tcpPcbs e = some p)
      (hes : s.heap e = some es) (hconn : es.conn = x.conn) (hpending : es.p ≠ [])
      (hrun : csTcpRawSend cfg.lwip es.p o.sndbuf o.writes = run) :
      CallbackStep cfg s o (.poll a)
        { s with
          heap := Function.update s.heap e (some { es with p := run.p })
          tpcbs := Function.update s.tpcbs a
            (some { x with unacked := x.unacked + run.wrote.flatten.length })
          trace := s.trace ++ [.lwip es.conn a (.rawSend run.attempts run.wrote.flatten)]
          loop := .lwip }
  | udpEmpty {src dst : Endpoint} :
      CallbackStep cfg s o (.udp src dst (some []))
        { s with upcb := dst, panic := some .indexOutOfRange }
  | udpKnown {src dst : Endpoint} {p : PcbId} {data : Bytes}
      (hp : s.udpPcbs (udpKey cfg.host src) = some p) (hdata : data ≠ []) :
      CallbackStep cfg s o (.udp src dst (some data))
        { s with upcb := dst, loop := .push p data (.udp src dst s.upcb) none }
  | udpNew {src dst : Endpoint} {data : Bytes}
      (hp : s.udpPcbs (udpKey cfg.host src) = none) (hdata : data ≠ []) :
      CallbackStep cfg s o (.udp src dst (some data))
        { s with
          upcb := dst
          pcbs := Function.update s.pcbs s.nextPcb
            (newPCB s.nextPcb ⟨.udp, 0, 0, dst.ip, dst.port, src.ip, src.port, 0⟩)
          nextPcb := s.nextPcb + 1
          udpPcbs := Function.update s.udpPcbs (udpKey cfg.host src) (some s.nextPcb)
          trace := s.trace ++ if cfg.event then [.onAccept s.nextPcb] else []
          loop := .push s.nextPcb data (.udp src dst s.upcb) none }

/-- The steps of the system, in a state whose table is in order. -/
inductive Step (cfg : Config) (s : Sys) : Act → Sys → Prop
  | callRead {t : Tid} {p : PcbId} {len : Nat} (hidle : s.threads t = .idle)
      (hp : p < s.nextPcb) :
      Step cfg s (.call t (.read p len))
        { s with threads := Function.update s.threads t (.read p len .inter) }
  | callWrite {t : Tid} {p : PcbId} {data : Bytes} (hidle : s.threads t = .idle)
      (hp : p < s.nextPcb) :
      Step cfg s (.call t (.write p data))
        { s with
          bufs := Function.update s.bufs s.nextWrite ⟨data, true⟩
          nextWrite := s.nextWrite + 1
          threads := Function.update s.threads t (.write p s.nextWrite .test) }
  | callClose {t : Tid} {p : PcbId} (hidle : s.threads t = .idle) (hp : p < s.nextPcb) :
      Step cfg s (.call t (.close p))
        { s with
          trace := s.trace ++ [.closeCalled t p]
          threads := Function.update s.threads t (.close p .lock) }
  | callIntercept {t : Tid} {p : PcbId} {c : Nat} (hidle : s.threads t = .idle)
      (hp : p < s.nextPcb) :
      Step cfg s (.call t (.intercept p c))
        { s with threads := Function.update s.threads t (.intercept p c .lock) }
  | read {t : Tid} {p : PcbId} {len : Nat} {pc : ReadPc} {s' : Sys}
      (hth : s.threads t = .read p len pc) (h : ReadStep s t p len pc s') : Step cfg s (.go t) s'
  | write {t : Tid} {p : PcbId} {w : WriteId} {pc : WritePc} {s' : Sys}
      (hth : s.threads t = .write p w pc) (h : WriteStep s t p w pc s') : Step cfg s (.go t) s'
  | close {t : Tid} {p : PcbId} {pc pc' : ClosePc} {s' : Sys}
      (hth : s.threads t = .close p pc) (h : CloseStep s (.goroutine t) p pc s' (some pc')) :
      Step cfg s (.go t) { s' with threads := Function.update s'.threads t (.close p pc') }
  | closed {t : Tid} {p : PcbId} (hth : s.threads t = .close p .unlock) :
      Step cfg s (.go t)
        { s with
          pcbs := Function.update s.pcbs p { s.pcbs p with lck := none }
          threads := Function.update s.threads t (.closePost p) }
  | closePost {t : Tid} {p : PcbId} {q : Chan PcbId} (hth : s.threads t = .closePost p)
      (hsend : s.closeQueue.send p = .done q) :
      Step cfg s (.go t)
        { s with closeQueue := q, threads := Function.update s.threads t .idle }
  | intercept {t : Tid} {p : PcbId} {c : Nat} {pc : InterPc} {s' : Sys}
      (hth : s.threads t = .intercept p c pc) (h : InterceptStep s t p c pc s') :
      Step cfg s (.go t) s'
  | reuse {w : WriteId} {data : Bytes} (hdone : (s.bufs w).inUse = false)
      (hlen : data.length = (s.bufs w).data.length) :
      Step cfg s (.reuse w data)
        { s with bufs := Function.update s.bufs w { s.bufs w with data := data } }
  | frame {data : Bytes} {q : Chan Bytes} (hsend : s.inputQueue.send data = .done q) :
      Step cfg s (.frame data) { s with inputQueue := q, trace := s.trace ++ [.frameRead data] }
  | userRecv {c : Nat} {chunk : Option Bytes} {ch : Chan Bytes}
      (hrecv : (s.chans (.user c)).recv = .done (chunk, ch)) :
      Step cfg s (.userRecv c) { s with chans := Function.update s.chans (.user c) ch }
  | takeRecved {o : Outcomes} {r : RecvedEntry} {q : Chan RecvedEntry} (hloop : s.loop = .select)
      (hrecv : s.recvedQueue.recv = .done (some r, q)) :
      Step cfg s (.take .recved o) { s with recvedQueue := q, loop := .credit r }
  | takeClose {o : Outcomes} {p : PcbId} {q : Chan PcbId} (hloop : s.loop = .select)
      (hrecv : s.closeQueue.recv = .done (some p, q)) (htype : (s.pcbs p).type = .tcp) :
      Step cfg s (.take .close o)
        { s with
          closeQueue := q
          tpcbs := Function.update s.tpcbs (s.pcbs p).pcb ((s.tpcbs (s.pcbs p).pcb).bind fun x =>
            if o.frees then none else some { x with closing := true })
          trace := s.trace ++ [.lwip (s.pcbs p).conn (s.pcbs p).pcb .close] }
  | takeCloseUdp {o : Outcomes} {p : PcbId} {q : Chan PcbId} (hloop : s.loop = .select)
      (hrecv : s.closeQueue.recv = .done (some p, q)) (htype : (s.pcbs p).type = .udp) :
      Step cfg s (.take .close o)
        { s with
          closeQueue := q
          udpPcbs := Function.update s.udpPcbs (udpKey cfg.host (s.pcbs p).remoteEnd) none
          trace := s.trace ++ [.udpRemoved p (udpKey cfg.host (s.pcbs p).remoteEnd)] }
  | takeSend {o : Outcomes} {entry : SendEntry} {q : Chan SendEntry} (hloop : s.loop = .select)
      (hrecv : s.sendQueue.recv = .done (some entry, q)) :
      Step cfg s (.take .send o) { s with sendQueue := q, loop := .send entry }
  | takeInput {o : Outcomes} {i : Bytes} {q : Chan Bytes} (hloop : s.loop = .select)
      (hrecv : s.inputQueue.recv = .done (some i, q)) :
      Step cfg s (.take .input o) { s with inputQueue := q, loop := .post i }
  | loop {o : Outcomes} {pc : LoopPc} {s' : Sys} (hpc : s.loop = pc) (h : LoopStep cfg s o pc s') :
      Step cfg s (.loop o) s'
  | callback {cb : Callback} {o : Outcomes} {s' : Sys} (hloop : s.loop = .lwip)
      (h : CallbackStep cfg s o cb s') : Step cfg s (.callback cb o) s'
  | release {a : Ptr} {x : TcpPcb} (hloop : s.loop = .lwip) (ha : s.tpcbs a = some x)
      (hclosing : x.closing = true) :
      Step cfg s (.release a) { s with tpcbs := Function.update s.tpcbs a none }

/-! ### Inversion -/

/-- The table, the heap and lwIP agree, and every PCB in use was made. -/
structure Sys.InOrder (s : Sys) : Prop where
  table : s.InTable
  known : s.InUse

namespace Sys

theorem goto_self {s : Sys} {pc : LoopPc} (h : s.loop = pc) : s.goto pc = s := by
  subst h
  rfl

theorem setHeap_self {s : Sys} {e : Ptr} {es : Option RawState} (h : s.heap e = es) :
    s.setHeap e es = s := by
  subst h
  simp only [setHeap, Function.update_eq_self]

theorem withRaw_eq {s : Sys} {e : Ptr} {es : RawState} (h : s.heap e = some es)
    (f : RawState → Sys) : s.withRaw e f = f es := by
  simp only [withRaw, h]

end Sys

variable {cfg : Config} {s t : Sys} {o : Outcomes}

theorem csTcpRawClose_eq {a e : Ptr} {k : ConnId} {p : PcbId} (hp : s.tcpPcbs e = some p) :
    s.csTcpRawClose a e k o =
      (((s.unregister k a).emit (.dispatched k p)).setTcp e none).goto (.close p .lock a e k) := by
  simp only [Sys.csTcpRawClose, Sys.goTcpCloseH, Sys.unregister, Sys.emit_tcpPcbs,
    Sys.setTpcb_tcpPcbs, hp]

theorem take_cases {q : Source} (hloop : s.loop = .select) (h : s.take cfg o q = some t) :
    Step cfg s (.take q o) t := by
  cases q with
  | recved =>
      simp only [Sys.take] at h
      split at h
      · rename_i r q hrecv
        cases h
        exact .takeRecved hloop hrecv
      · cases h
  | close =>
      simp only [Sys.take] at h
      split at h
      · rename_i p q hrecv
        split at h
        · rename_i htype
          cases h
          exact .takeClose hloop hrecv htype
        · rename_i htype
          cases h
          exact .takeCloseUdp hloop hrecv htype
      · cases h
  | send =>
      simp only [Sys.take] at h
      split at h
      · rename_i entry q hrecv
        cases h
        exact .takeSend hloop hrecv
      · cases h
  | input =>
      simp only [Sys.take] at h
      split at h
      · rename_i i q hrecv
        cases h
        exact .takeInput hloop hrecv
      · cases h

theorem send_cases {entry : SendEntry} (hs : s.InOrder) (hloop : s.loop = .send entry) :
    LoopStep cfg s o (.send entry) (s.send cfg entry o) := by
  have hknown : entry.pcb < s.nextPcb := by
    have := hs.known.loop
    rwa [hloop] at this
  by_cases herr : (s.pcbs entry.pcb).err = true
  · rw [Sys.send, if_pos herr]
    exact .dropped herr
  have hopen : (s.pcbs entry.pcb).err = false := by simpa using herr
  rw [Sys.send, if_neg herr]
  cases htype : (s.pcbs entry.pcb).type with
  | udp => exact .passed hopen htype
  | tcp =>
      by_cases hdata : (s.bufs entry.data).data = []
      · simp only [hdata, if_true]
        exact .sendEmpty hdata
      have hin : s.tcpPcbs (s.pcbs entry.pcb).state = some entry.pcb := by
        rcases hs.table.isOpen _ hknown htype hopen with hin | ⟨e, hclosing⟩
        · exact hin
        · rw [hloop] at hclosing
          cases hclosing
      obtain ⟨es, hes, _⟩ := hs.table.entry _ _ hin
      simp only [hdata, if_false, Sys.withRaw, Sys.setPcb_heap, hes]
      by_cases hp : es.p = []
      · cases halloc : o.alloc with
        | true =>
            simp only [Sys.csTcpCharSend, hp, halloc, ne_eq, not_true_eq_false, if_false, if_true]
            simp only [Sys.rawSend, Sys.setPcb, Sys.setHeap, Sys.setTpcb, Sys.emit, Sys.goto]
            exact .sendTcp hopen htype hdata hes hp halloc rfl
        | false =>
            simp only [Sys.csTcpCharSend, hp, halloc, ne_eq, not_true_eq_false, if_false,
              Bool.false_eq_true]
            simp only [Sys.setPcb, Sys.emit, Sys.goto]
            exact .sendFailed hopen htype hdata hes (Or.inr ⟨hp, halloc, rfl⟩)
      · simp only [Sys.csTcpCharSend, ne_eq, hp, not_false_eq_true, if_true]
        simp only [Sys.setPcb, Sys.emit, Sys.goto]
        exact .sendFailed hopen htype hdata hes (Or.inl ⟨hp, rfl⟩)

theorem udpSend_cases {entry : SendEntry} (hs : s.InOrder) (hloop : s.loop = .udpSend entry) :
    LoopStep cfg s o (.udpSend entry) (s.udpSend entry o) := by
  have htype : (s.pcbs entry.pcb).type = .udp := by
    have hknown := hs.known.loop
    rw [hloop] at hknown
    exact hknown.2
  by_cases hdata : (s.bufs entry.data).data = []
  · rw [Sys.udpSend, if_pos hdata]
    exact .udpSendEmpty hdata
  rw [Sys.udpSend, if_neg hdata]
  cases halloc : o.alloc with
  | true =>
      simp only [Sys.csUdpCharSendto, halloc, if_true, Sys.setUpcb, Sys.emit, Sys.goto]
      exact .sendUdp htype hdata halloc
  | false =>
      simp only [Sys.csUdpCharSendto, halloc, if_false, Bool.false_eq_true, Sys.emit, Sys.goto]
      exact .sendUdpFailed htype hdata halloc

theorem goInputH_cases : LoopStep cfg s o .netif ((s.goInputH o).goto .lwip) := by
  unfold Sys.goInputH
  split
  · rename_i b rest q hrecv
    cases halloc : o.alloc with
    | true => exact .netif
    | false => exact .netifNone
  · exact .netifNone
  · exact LoopStep.netifNone (q := s.inputQueue2)

theorem loopStep_cases (hs : s.InOrder) (h : s.loopStep cfg o = some t) :
    LoopStep cfg s o s.loop t := by
  unfold Sys.loopStep at h
  cases hloop : s.loop with
  | select =>
      rw [hloop] at h
      cases h
  | credit r =>
      simp only [hloop] at h
      by_cases herr : (s.pcbs r.pcb).err = true
      · rw [if_pos herr] at h
        cases h
        exact .creditClosed herr
      · rw [if_neg herr] at h
        cases h
        exact .credit (by simpa using herr)
  | send entry =>
      simp only [hloop] at h
      cases h
      exact send_cases hs hloop
  | udpSend entry =>
      simp only [hloop] at h
      cases h
      exact udpSend_cases hs hloop
  | post frame =>
      simp only [hloop] at h
      split at h
      · rename_i q hsend
        cases h
        exact .post hsend
      · cases h
  | netif =>
      simp only [hloop] at h
      cases h
      exact goInputH_cases
  | lwip =>
      simp only [hloop] at h
      cases h
      exact .leave
  | push p data ctx target =>
      cases target with
      | none =>
          simp only [hloop] at h
          cases h
          exact .target
      | some r =>
          simp only [hloop] at h
          split at h
          · cases h
          · rename_i hclosed
            cases h
            exact .pushClosed (Chan.send_panics_iff.mp hclosed)
          · rename_i ch hsend
            cases h
            cases ctx with
            | tcp k =>
                simp only [Sys.pushReturned, Sys.recvReturn, Sys.setChan, Sys.emit, Sys.goto]
                exact .push hsend
            | udp src dst old =>
                simp only [Sys.pushReturned, Sys.setChan, Sys.emit, Sys.setUpcb, Sys.goto]
                exact .pushUdp hsend
  | done p a e k =>
      simp only [hloop] at h
      have hok := hs.table.loopOk
      rw [hloop] at hok
      obtain ⟨es, hes, _, _, hlive⟩ := hs.table.entry e p hok.1
      split at h
      · cases h
      · rename_i hclosed
        cases h
        exact .doneClosed (Chan.send_panics_iff.mp hclosed)
      · rename_i ch hsend
        cases h
        simp only [Sys.sentReturned, Sys.withRaw, Sys.setPcb_heap, hes, if_neg hlive.ne_closing]
        simp only [Sys.setPcb, Sys.goto]
        exact .done hsend
  | close p pc a e k =>
      simp only [hloop] at h
      obtain ⟨⟨s', next⟩, hclose, h⟩ := Option.map_eq_some_iff.mp h
      have hstep := closeStep_cases hclose
      cases next with
      | some pc' =>
          cases h
          exact .close hstep
      | none =>
          cases h
          cases hstep
          simp only [Sys.closeReturned, Sys.rawCloseEnd, Sys.notify, Sys.setHeap, Sys.tcpClose,
            Sys.setTpcb, Sys.emit, Sys.goto]
          exact .closed

theorem onTpcb_some {a : Ptr} {f : TcpPcb → Ptr → Option Sys} (h : s.onTpcb a f = some t) :
    ∃ x e, s.tpcbs a = some x ∧ x.arg = some e ∧ f x e = some t := by
  unfold Sys.onTpcb at h
  split at h
  · rename_i x hx
    split at h
    · rename_i e he
      exact ⟨x, e, hx, he, h⟩
    · cases h
  · cases h

/-- A state object in use by a callback is `accepted` or `received`; either way
its first data leaves it `received`. -/
theorem csTcpRawRecv_eq {a e : Ptr} {es : RawState} {data : Bytes}
    (hes : s.heap e = some es) (hlive : es.Live) :
    s.csTcpRawRecv a e (some data) .ok o =
      ((s.emit (.delivered es.conn data)).setHeap e
        (some { es with state := .received })).goTcpRecvH e es.conn data := by
  simp only [Sys.csTcpRawRecv, Sys.withRaw_eq hes, ne_eq, not_true_eq_false, if_false]
  rcases hlive with hstate | hstate
  · simp only [hstate]
  · have hself : (some { es with state := .received } : Option RawState) = some es := by
      rw [← hstate]
    rw [hself, Sys.setHeap_self (by exact hes)]
    simp only [hstate]

theorem goTcpRecvH_cases {a e : Ptr} {x : TcpPcb} {p : PcbId} {es : RawState} {data : Bytes}
    (ha : s.tpcbs a = some x) (harg : x.arg = some e) (hp : s.tcpPcbs e = some p)
    (hes : s.heap e = some es) (hconn : es.conn = x.conn) :
    CallbackStep cfg s o (.recv a (some data) .ok)
      (((s.emit (.delivered es.conn data)).setHeap e
        (some { es with state := .received })).goTcpRecvH e es.conn data) := by
  simp only [Sys.goTcpRecvH, Sys.setHeap_tcpPcbs, Sys.emit_tcpPcbs, hp, Sys.emit_pcbs,
    Sys.setHeap_pcbs]
  by_cases herr : (s.pcbs p).err = true
  · rw [if_pos herr]
    simp only [Sys.recvReturn, Sys.setHeap, Sys.emit, Sys.goto]
    exact .recvClosed ha harg hp hes hconn herr
  rw [if_neg herr]
  have hopen : (s.pcbs p).err = false := by simpa using herr
  by_cases hdata : data = []
  · rw [if_pos hdata]
    subst hdata
    simp only [Sys.setHeap, Sys.emit, Sys.crash]
    exact .recvEmpty ha harg hp hes hconn hopen
  · rw [if_neg hdata]
    simp only [Sys.setHeap, Sys.emit, Sys.goto]
    exact .recv ha harg hp hes hconn hopen hdata

theorem csTcpSend_cases {a e : Ptr} {x : TcpPcb} {p : PcbId} {es : RawState} {len : Nat}
    (ha : s.tpcbs a = some x) (harg : x.arg = some e) (hp : s.tcpPcbs e = some p)
    (hes : s.heap e = some es) (hconn : es.conn = x.conn) (hlive : es.Live) :
    CallbackStep cfg s o (.sent a len)
      ((s.setTpcb a (some { x with unacked := x.unacked - len })).csTcpSend cfg a e o) := by
  simp only [Sys.csTcpSend, Sys.withRaw, Sys.setTpcb_heap, hes]
  by_cases hpending : es.p = []
  · simp only [hpending, ne_eq, not_true_eq_false, if_false, Sys.goTcpSendDoneH,
      Sys.setTpcb_tcpPcbs, hp, Sys.emit_pcbs, Sys.setTpcb_pcbs, Sys.sentReturned, Sys.withRaw,
      Sys.emit_heap, Sys.setTpcb_heap, hes, if_neg hlive.ne_closing]
    by_cases herr : (s.pcbs p).err = true
    · rw [if_pos herr]
      simp only [Sys.setTpcb, Sys.emit, Sys.goto]
      exact .sentIdle ha harg hp hes hconn hpending (Or.inl herr)
    rw [if_neg herr]
    by_cases hcount : 0 < (s.pcbs p).sendCount
    · rw [if_pos hcount]
      simp only [Sys.setTpcb, Sys.setPcb, Sys.emit, Sys.goto]
      exact .sent ha harg hp hes hconn hpending (by simpa using herr) hcount
    · rw [if_neg hcount]
      simp only [Sys.setTpcb, Sys.emit, Sys.goto]
      exact .sentIdle ha harg hp hes hconn hpending (Or.inr (Nat.eq_zero_of_not_pos hcount))
  · simp only [ne_eq, hpending, not_false_eq_true, if_true, Sys.emit, Sys.rawSend, Sys.setHeap,
      Sys.setTpcb, Function.update_self, Option.map_some, Function.update_idem, Sys.goto]
    exact .sentMore ha harg hp hes hconn hpending rfl

theorem callback_cases {cb : Callback} (hs : s.InOrder) (hloop : s.loop = .lwip)
    (h : s.callback cfg o cb = some t) : CallbackStep cfg s o cb t := by
  cases cb with
  | accept newpcb err mem localEnd remoteEnd =>
      simp only [Sys.callback] at h
      split at h
      · rename_i hfresh
        cases h
        cases newpcb with
        | none => exact .ignored
        | some a =>
            cases mem with
            | none => exact .ignored
            | some e =>
                have ha : s.tpcbs a = none := hfresh.1 a rfl
                have he : s.heap e = none := hfresh.2 e rfl
                by_cases herr : err = .ok
                · subst herr
                  have hnone : s.tcpPcbs e = none := hs.table.not_entered he
                  simp only [Sys.csTcpRawAccept, ne_eq, not_true_eq_false, if_false,
                    Sys.goTcpAcceptH, Sys.newConn, Sys.setHeap, Sys.setTpcb, Sys.emit, hnone,
                    Sys.addPcb, Sys.setTcp, Sys.notify]
                  exact .accept ha he
                · simp only [Sys.csTcpRawAccept, ne_eq, herr, not_false_eq_true, if_true]
                  exact .ignored
      · cases h
  | recv a p err =>
      obtain ⟨x, e, ha, harg, h⟩ := onTpcb_some h
      cases h
      obtain ⟨q, es, hq, hes, hconn, _, hlive, _⟩ := hs.table.callback ha harg
      cases p with
      | none =>
          rw [Sys.csTcpRawRecv, Sys.withRaw_eq hes]
          simp only [csTcpRawClose_eq (s := s.setHeap e _) (o := o) hq]
          simp only [Sys.unregister, Sys.setHeap, Sys.setTpcb, ha, Option.map_some, Sys.emit,
            Sys.setTcp, Sys.goto]
          exact .fin ha harg hq hes hconn
      | some data =>
          by_cases herr : err = .ok
          · subst herr
            rw [csTcpRawRecv_eq hes hlive]
            exact goTcpRecvH_cases ha harg hq hes hconn
          · rw [Sys.csTcpRawRecv, Sys.withRaw_eq hes]
            simp only [ne_eq, herr, not_false_eq_true, if_true]
            exact .assertion herr
  | sent a len =>
      obtain ⟨x, e, ha, harg, h⟩ := onTpcb_some h
      obtain ⟨q, es, hq, hes, hconn, _, hlive, _⟩ := hs.table.callback ha harg
      split at h
      · cases h
        exact csTcpSend_cases ha harg hq hes hconn hlive
      · cases h
  | poll a =>
      obtain ⟨x, e, ha, harg, h⟩ := onTpcb_some h
      cases h
      obtain ⟨q, es, hq, hes, hconn, _, hlive, _⟩ := hs.table.callback ha harg
      rw [Sys.csTcpRawPoll, Sys.withRaw_eq hes]
      by_cases hpending : es.p = []
      · simp only [hpending, ne_eq, not_true_eq_false, if_false,
          if_neg hlive.ne_closing, Sys.goto_self hloop]
        exact .ignored
      · simp only [ne_eq, hpending, not_false_eq_true, if_true, Sys.rawSend, Sys.setHeap,
          Sys.setTpcb, ha, Option.map_some, Sys.emit, Sys.goto]
        exact .pollMore ha harg hq hes hconn hpending rfl
  | err a =>
      obtain ⟨x, e, ha, harg, h⟩ := onTpcb_some h
      cases h
      obtain ⟨q, es, hq, hes, hconn, hpcb, _⟩ := hs.table.callback ha harg
      rw [Sys.csTcpRawError, Sys.withRaw_eq (by exact hes), hpcb,
        csTcpRawClose_eq (by exact hq)]
      simp only [Sys.unregister, Sys.setTpcb, Sys.emit, Function.update_self, Option.map_none,
        Function.update_idem, Sys.setTcp, Sys.goto]
      exact .err ha harg hq hes hconn
  | udp src dst p =>
      simp only [Sys.callback] at h
      cases h
      cases p with
      | none => exact .ignored
      | some data =>
          simp only [Sys.udpInput, Sys.goUdpRecvH]
          by_cases hdata : data = []
          · subst hdata
            exact .udpEmpty
          rw [if_neg hdata]
          cases hp : s.udpPcbs (udpKey cfg.host src) with
          | none =>
              simp only [Sys.setUpcb, hp, Sys.addPcb, Sys.setUdp, Sys.notify, Sys.goto]
              exact .udpNew hp hdata
          | some q =>
              simp only [Sys.setUpcb_udpPcbs, hp]
              exact .udpKnown hp hdata

theorem goStep_cases {th : Tid} (h : s.goStep th = some t) : Step cfg s (.go th) t := by
  unfold Sys.goStep at h
  cases hth : s.threads th with
  | idle =>
      rw [hth] at h
      cases h
  | read p len pc =>
      rw [hth] at h
      exact .read hth (readStep_cases h)
  | write p w pc =>
      rw [hth] at h
      exact .write hth (writeStep_cases h)
  | close p pc =>
      rw [hth] at h
      obtain ⟨⟨s', next⟩, hclose, h⟩ := Option.map_eq_some_iff.mp h
      have hstep := closeStep_cases hclose
      cases next with
      | some pc' =>
          cases h
          exact .close hth hstep
      | none =>
          cases h
          cases hstep
          exact .closed hth
  | closePost p =>
      rw [hth] at h
      simp only at h
      split at h
      · rename_i q hsend
        cases h
        exact .closePost hth hsend
      · cases h
  | intercept p c pc =>
      rw [hth] at h
      exact .intercept hth (interceptStep_cases h)

/-- In a state whose table is in order the system has only the listed steps. -/
theorem step_cases {a : Act} (hs : s.InOrder) (h : step cfg s a = some t) : Step cfg s a t := by
  unfold step at h
  split at h
  · cases h
  cases a with
  | call th m =>
      simp only [Sys.call] at h
      split at h
      · rename_i hcall
        cases h
        cases m with
        | read p len => exact .callRead hcall.1 hcall.2
        | write p data => exact .callWrite hcall.1 hcall.2
        | close p => exact .callClose hcall.1 hcall.2
        | intercept p c => exact .callIntercept hcall.1 hcall.2
      · cases h
  | go th => exact goStep_cases h
  | reuse w data =>
      simp only [Sys.reuse] at h
      split at h
      · rename_i hdone
        cases h
        exact .reuse hdone.1 hdone.2
      · cases h
  | frame data =>
      simp only [Sys.readFrame] at h
      split at h
      · split at h
        · rename_i q hsend
          cases h
          exact .frame hsend
        · cases h
      · cases h
  | userRecv c =>
      simp only [Sys.userRecv] at h
      split at h
      · rename_i chunk ch hrecv
        cases h
        exact .userRecv hrecv
      · cases h
  | take q o =>
      simp only at h
      split at h
      · rename_i hloop
        exact take_cases hloop h
      · cases h
  | loop o => exact .loop rfl (loopStep_cases hs h)
  | callback cb o =>
      simp only at h
      split at h
      · rename_i hloop
        exact .callback hloop (callback_cases hs hloop h)
      · cases h
  | release a =>
      simp only [Sys.release] at h
      split at h
      · rename_i hloop
        split at h
        · rename_i x ha
          split at h
          · rename_i hclosing
            cases h
            exact .release hloop ha hclosing
          · cases h
        · cases h
      · cases h

end LwipCs
