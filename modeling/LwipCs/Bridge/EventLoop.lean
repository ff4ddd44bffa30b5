import LwipCs.Bridge.Callback
import LwipCs.Interleave.Machine

/-!
# The event loop and the whole system

`go_netif_proc` selects among four queues. While it is inside `go_cs_netif_proc`
lwIP may call back any number of times; a callback is taken only on a live pcb
whose callback argument is set, and acknowledges only bytes that were enqueued.

The bridge is a machine. Its actions are the calls and steps of goroutines, the
steps of the loop, and the callbacks and releases of lwIP.
-/

namespace LwipCs

open Interleave

/-- The cases of the select statement of `go_netif_proc`. -/
inductive Source
  | recved
  | close
  | send
  | input
  deriving DecidableEq, Repr

namespace Sys

/-- A case of the select that is ready. An entry of `closeQueue` is handled at
once: the loop touches nothing shared on the way. -/
def take (cfg : Config) (s : Sys) (o : Outcomes) : Source → Option Sys
  | .recved =>
      match s.recvedQueue.recv with
      | .done (some r, q) => some ((s.setRecvedQueue q).goto (.credit r))
      | _ => none
  | .close =>
      match s.closeQueue.recv with
      | .done (some c, q) =>
          let s := s.setCloseQueue q
          match (s.pcbs c).type with
          | .tcp => some (s.tcpClose (s.pcbs c).conn (s.pcbs c).pcb o)
          | .udp =>
              let key := udpKey cfg.host (s.pcbs c).remoteEnd
              some ((s.setUdp key none).emit (.udpRemoved c key))
      | _ => none
  | .send =>
      match s.sendQueue.recv with
      | .done (some e, q) => some ((s.setSendQueue q).goto (.send e))
      | _ => none
  | .input =>
      match s.inputQueue.recv with
      | .done (some i, q) => some ((s.setInputQueue q).goto (.post i))
      | _ => none

/-- `cs_tcp_char_send`: 100 while data is pending, 1 without a pbuf. -/
def csTcpCharSend (cfg : Config) (s : Sys) (a e : Ptr) (es : RawState) (data : Bytes)
    (o : Outcomes) : Sys × Nat :=
  if es.p ≠ [] then (s, 100)
  else if o.alloc then (s.rawSend cfg a e { es with p := charChain cfg.lwip data } o, 0)
  else (s, 1)

/-- `sendEntry.Send`, for TCP with `tcpSend` and back to the select: the `Write` that made
the entry holds `lck` until it is answered, so nobody comes between the test of `err` and
the call. What `tcpSend` returns is discarded. -/
def send (cfg : Config) (s : Sys) (entry : SendEntry) (o : Outcomes) : Sys :=
  let x := s.pcbs entry.pcb
  if x.err then (s.emit (.dropped entry.pcb entry.data)).goto .select
  else match x.type with
    | .tcp =>
        let data := (s.bufs entry.data).data
        if data = [] then s.crash .indexOutOfRange
        else
          let s := s.setPcb entry.pcb { x with sendCount := x.sendCount + 1 }
          s.withRaw x.state fun es =>
            let r := s.csTcpCharSend cfg x.pcb x.state es data o
            (r.1.emit (.charSend entry.pcb entry.data r.2)).goto .select
    | .udp => (s.emit (.passed entry.pcb entry.data)).goto (.udpSend entry)

/-- `udpSend`, called by `Send` on an entry that has passed the test of `err`, and back to
the select. -/
def udpSend (s : Sys) (entry : SendEntry) (o : Outcomes) : Sys :=
  let x := s.pcbs entry.pcb
  let data := (s.bufs entry.data).data
  if data = [] then s.crash .indexOutOfRange
  else
    ((s.emit (.udpCharSendto entry.pcb entry.data x.localEnd x.remoteEnd data)).csUdpCharSendto
      x.localEnd x.remoteEnd data o).goto .select

/-- `go_input_h`, called first by `cs_netif_proc`: one frame is taken if there is
one, and handed to lwIP if it can be copied to a pbuf. -/
def goInputH (s : Sys) (o : Outcomes) : Sys :=
  match s.inputQueue2.recv with
  | .done (some (b :: rest), q) =>
      let s := s.setInputQueue2 q
      if o.alloc then s.emit (.netifInput (b :: rest)) else s
  | .done (some [], q) => s.setInputQueue2 q
  | _ => s

/-- A receive handler after its send on `recvQueued`. -/
def pushReturned (s : Sys) (p : PcbId) (data : Bytes) : PushCtx → Sys
  | .tcp k => (s.emit (.queued p data)).recvReturn k .ok
  | .udp src dst old =>
      (((s.emit (.queued p data)).emit (.udpQueued p src dst data)).setUpcb old).goto .lwip

/-- The next access of the loop. -/
def loopStep (cfg : Config) (s : Sys) (o : Outcomes) : Option Sys :=
  match s.loop with
  | .select => none
  | .credit r =>
      if (s.pcbs r.pcb).err then some (s.goto .select)
      else some ((s.emit (.lwip (s.pcbs r.pcb).conn (s.pcbs r.pcb).pcb
        (.recved (u16 r.len)))).goto .select)
  | .send entry => some (s.send cfg entry o)
  | .udpSend entry => some (s.udpSend entry o)
  | .post frame =>
      match s.inputQueue2.send frame with
      | .done q => some ((s.setInputQueue2 q).goto .netif)
      | _ => none
  | .netif => some ((s.goInputH o).goto .lwip)
  | .lwip => some (s.goto .select)
  | .push p data ctx none => some (s.goto (.push p data ctx (some (s.pcbs p).recvQueued)))
  | .push p data ctx (some r) =>
      match (s.chans r).send data with
      | .blocked => none
      | .panics => some (s.crash .sendOnClosed)
      | .done ch => some ((s.setChan r ch).pushReturned p data ctx)
  | .done p a e _ =>
      match (s.pcbs p).sendWait.send () with
      | .blocked => none
      | .panics => some (s.crash .sendOnClosed)
      | .done ch => some ((s.setPcb p { s.pcbs p with sendWait := ch }).sentReturned a e o)
  | .close p pc a e k =>
      (s.closeStep .loop p pc).map fun r =>
        match r.2 with
        | some pc => r.1.goto (.close p pc a e k)
        | none => r.1.closeReturned cfg p a e k o

/-- lwIP calls back on a live pcb with its callback argument. -/
def onTpcb (s : Sys) (a : Ptr) (f : TcpPcb → Ptr → Option Sys) : Option Sys :=
  match s.tpcbs a with
  | some x =>
      match x.arg with
      | some e => f x e
      | none => none
  | none => none

/-- A callback of lwIP. Before the error callback lwIP releases the pcb. -/
def callback (cfg : Config) (s : Sys) (o : Outcomes) : Callback → Option Sys
  | .accept newpcb err mem localEnd remoteEnd =>
      if (∀ a ∈ newpcb, s.tpcbs a = none) ∧ (∀ e ∈ mem, s.heap e = none) then
        some (s.csTcpRawAccept cfg newpcb err mem localEnd remoteEnd)
      else none
  | .recv a p err => s.onTpcb a fun _ e => some (s.csTcpRawRecv a e p err o)
  | .sent a len => s.onTpcb a fun x e =>
      if 0 < len ∧ len ≤ x.unacked then
        some ((s.setTpcb a (some { x with unacked := x.unacked - len })).csTcpSend cfg a e o)
      else none
  | .poll a => s.onTpcb a fun _ e => some (s.csTcpRawPoll cfg a e o)
  | .err a => s.onTpcb a fun x e =>
      some (((s.setTpcb a none).emit (.errCallback x.conn)).csTcpRawError e o)
  | .udp src dst p => some (s.udpInput cfg src dst p)

/-- lwIP releases a pcb that was closed. -/
def release (s : Sys) (a : Ptr) : Option Sys :=
  match s.tpcbs a with
  | some x => if x.closing then some (s.setTpcb a none) else none
  | none => none

end Sys

inductive Act
  | call (t : Tid) (m : Call)
  | go (t : Tid)
  | reuse (w : WriteId) (data : Bytes)
  | frame (data : Bytes)
  | userRecv (c : Nat)
  | take (q : Source) (o : Outcomes)
  | loop (o : Outcomes)
  | callback (cb : Callback) (o : Outcomes)
  | release (a : Ptr)
  deriving DecidableEq, Repr

/-- One action of the system. After a panic there is none. -/
def step (cfg : Config) (s : Sys) (a : Act) : Option Sys :=
  if s.panic.isSome then none
  else match a with
    | .call t m => s.call t m
    | .go t => s.goStep t
    | .reuse w data => s.reuse w data
    | .frame data => s.readFrame data
    | .userRecv c => s.userRecv c
    | .take q o => if s.loop = .select then s.take cfg o q else none
    | .loop o => s.loopStep cfg o
    | .callback cb o => if s.loop = .lwip then s.callback cfg o cb else none
    | .release a => if s.loop = .lwip then s.release a else none

/-- The bridge under a configuration. -/
def bridge (cfg : Config) : Machine Sys Act := ⟨Sys.init cfg, step cfg⟩

/-! ### Schedules -/

namespace Schedule

/-- `char` is signed, and `Event` is set. -/
def config : Config := ⟨.swapping true, .pool, true, fun _ => 1, fun _ => Nat.one_pos⟩

/-- Nothing fails, and there is room for three calls of `tcp_write`. -/
def fine : Outcomes := ⟨true, 65535, [.ok, .ok, .ok], false⟩

/-- A frame arrives and the loop enters lwIP. -/
def enterLwip : List Act := [.frame [0], .take .input fine, .loop fine, .loop fine]

/-- lwIP accepts a connection at the address 1, with a state object at 2. -/
def accept : List Act :=
  enterLwip ++ [.callback (.accept (some 1) .ok (some 2) ⟨.v4 0, 80⟩ ⟨.v4 0, 4000⟩) fine]

/-- The goroutine 0 calls `Write`, takes the lock and posts its buffer. -/
def write (data : Bytes) : List Act := [.call 0 (.write 0 data), .go 0, .go 0, .go 0]

example : ((bridge config).exec (fun _ _ => true) (Sys.init config) accept).map (·.tcpPcbs 2) =
    some (some 0) := by decide

end Schedule

end LwipCs
