import LwipCs.Bridge.State

/-!
# The methods of PCB

Each method is a sequence of accesses to shared objects: a field of the PCB, a
channel, the mutex. A goroutine performs one access in a step and blocks, by
having no step, on a taken mutex, a full channel, or an empty open one. The queues
of the package are never closed, so only `recvQueued` and `sendWait` can panic.
-/

namespace LwipCs

open Interleave

/-- A method call, with the buffer of `Read` given by its length. -/
inductive Call
  | read (p : PcbId) (len : Nat)
  | write (p : PcbId) (data : Bytes)
  | close (p : PcbId)
  | intercept (p : PcbId) (c : Nat)
  deriving DecidableEq, Repr

def Call.pcb : Call → PcbId
  | .read p _ | .write p _ | .close p | .intercept p _ => p

namespace Sys

/-- A goroutine enters a method. -/
def enter (s : Sys) (t : Tid) : Call → Sys
  | .read p len => s.setThread t (.read p len .inter)
  | .write p data =>
      (s.addBuf ⟨data, true⟩).setThread t (.write p s.nextWrite .test)
  | .close p => (s.emit (.closeCalled t p)).setThread t (.close p .lock)
  | .intercept p c => s.setThread t (.intercept p c .lock)

/-- An idle goroutine calls a method of a PCB it was given. -/
def call (s : Sys) (t : Tid) (m : Call) : Option Sys :=
  if s.threads t = .idle ∧ m.pcb < s.nextPcb then some (s.enter t m) else none

/-- `PCB.Read`. An empty chunk and a closed channel are treated alike. The check
of the buffer and the copy touch nothing shared. -/
def readStep (s : Sys) (t : Tid) (p : PcbId) (len : Nat) : ReadPc → Option Sys
  | .inter =>
      if (s.pcbs p).recvInter then some (s.crash .intercepted)
      else some (s.setThread t (.read p len .test))
  | .test =>
      if (s.pcbs p).err then some ((s.emit (.readErr t p)).setThread t .idle)
      else some (s.setThread t (.read p len .load))
  | .load => some (s.setThread t (.read p len (.recv (s.pcbs p).recvQueued)))
  | .recv r =>
      match (s.chans r).recv with
      | .done (recevied, ch) =>
          let s := s.setChan r ch
          match recevied with
          | none | some [] => some (s.setThread t (.read p len .errRet))
          | some data =>
              if len < data.length then some (s.crash .bufferTooSmall)
              else match (s.pcbs p).type with
                | .tcp => some (s.setThread t (.read p len (.credit data)))
                | .udp => some ((s.emit (.readOk t p data)).setThread t .idle)
      | _ => none
  | .errRet =>
      if (s.pcbs p).err then some ((s.emit (.readErr t p)).setThread t .idle)
      else some ((s.emit (.readNil t p)).setThread t .idle)
  | .credit data =>
      match s.recvedQueue.send ⟨p, data.length⟩ with
      | .done q => some (((s.setRecvedQueue q).emit (.readOk t p data)).setThread t .idle)
      | _ => none

/-- `PCB.Write`. Only a TCP PCB takes `lck` and waits for `sendWait`. -/
def writeStep (s : Sys) (t : Tid) (p : PcbId) (w : WriteId) : WritePc → Option Sys
  | .test =>
      if (s.bufs w).data.length < 1 then
        some (((s.emit (.writeRet p w (s.bufs w).data false)).setBuf w
          { s.bufs w with inUse := false }).setThread t .idle)
      else if (s.pcbs p).err then some (s.setThread t (.write p w .ret))
      else match (s.pcbs p).type with
        | .tcp => some (s.setThread t (.write p w .lock))
        | .udp => some (s.setThread t (.write p w .post))
  | .lock =>
      if (s.pcbs p).lck = none then
        some (((s.setPcb p { s.pcbs p with lck := some (.goroutine t) }).emit
          (.locked p w (s.bufs w).data)).setThread t (.write p w .enqueue))
      else none
  | .enqueue =>
      match s.sendQueue.send ⟨p, w⟩ with
      | .done q =>
          some (((s.setSendQueue q).emit (.enqueued p w)).setThread t (.write p w .wait))
      | _ => none
  | .wait =>
      match (s.pcbs p).sendWait.recv with
      | .done (_, ch) =>
          some (((s.setPcb p { s.pcbs p with sendWait := ch }).emit
            (.released p w (s.bufs w).data)).setThread t (.write p w .unlock))
      | _ => none
  | .unlock =>
      some ((s.setPcb p { s.pcbs p with lck := none }).setThread t (.write p w .ret))
  | .post =>
      match s.sendQueue.send ⟨p, w⟩ with
      | .done q =>
          some (((s.setSendQueue q).emit (.enqueued p w)).setThread t (.write p w .ret))
      | _ => none
  | .ret =>
      some (((s.emit (.writeRet p w (s.bufs w).data (!(s.pcbs p).err))).setBuf w
        { s.bufs w with inUse := false }).setThread t .idle)

/-- `PCB.close`, performed by a goroutine in `Close` or by the loop in
`go_tcp_close_h`. The second component is where it stands next, `none` after the
deferred unlock. -/
def closeStep (s : Sys) (who : Actor) (p : PcbId) : ClosePc → Option (Sys × Option ClosePc)
  | .lock =>
      if (s.pcbs p).lck = none then
        some (s.setPcb p { s.pcbs p with lck := some who }, some .test)
      else none
  | .test => if (s.pcbs p).err then some (s, some .unlock) else some (s, some .setErr)
  | .setErr =>
      some ((s.setPcb p { s.pcbs p with err := true }).emit (.errSet p), some .closeRecv)
  | .closeRecv =>
      if (s.pcbs p).recvInter then some (s, some .closeWait)
      else match (s.chans (s.pcbs p).recvQueued).close with
        | .done ch => some (s.setChan (s.pcbs p).recvQueued ch, some .closeWait)
        | _ => some (s.crash .closeOfClosed, some .closeWait)
  | .closeWait =>
      match (s.pcbs p).type with
      | .tcp =>
          match (s.pcbs p).sendWait.close with
          | .done ch => some (s.setPcb p { s.pcbs p with sendWait := ch }, some .unlock)
          | _ => some (s.crash .closeOfClosed, some .unlock)
      | .udp => some (s, some .unlock)
  | .unlock => some (s.setPcb p { s.pcbs p with lck := none }, none)

/-- `PCB.Intercept`. -/
def interceptStep (s : Sys) (t : Tid) (p : PcbId) (c : Nat) : InterPc → Option Sys
  | .lock =>
      if (s.pcbs p).lck = none then
        some ((s.setPcb p { s.pcbs p with lck := some (.goroutine t) }).setThread t
          (.intercept p c .test))
      else none
  | .test =>
      if (s.pcbs p).recvInter then
        some (((s.setPcb p { s.pcbs p with lck := none }).setThread t .idle).crash .intercepted)
      else some (s.setThread t (.intercept p c .set))
  | .set =>
      some ((s.setPcb p { s.pcbs p with recvInter := true }).setThread t (.intercept p c .closeOld))
  | .closeOld =>
      match (s.chans (s.pcbs p).recvQueued).close with
      | .done ch => some ((s.setChan (s.pcbs p).recvQueued ch).setThread t (.intercept p c .swap))
      | _ => some (s.crash .closeOfClosed)
  | .swap =>
      some ((s.setPcb p { s.pcbs p with recvQueued := .user c }).setThread t
        (.intercept p c .unlock))
  | .unlock => some ((s.setPcb p { s.pcbs p with lck := none }).setThread t .idle)

/-- The next access of a goroutine. `Close` posts the PCB after `close`. -/
def goStep (s : Sys) (t : Tid) : Option Sys :=
  match s.threads t with
  | .idle => none
  | .read p len pc => s.readStep t p len pc
  | .write p w pc => s.writeStep t p w pc
  | .close p pc =>
      (s.closeStep (.goroutine t) p pc).map fun r =>
        match r.2 with
        | some pc => r.1.setThread t (.close p pc)
        | none => r.1.setThread t (.closePost p)
  | .closePost p =>
      match s.closeQueue.send p with
      | .done q => some ((s.setCloseQueue q).setThread t .idle)
      | _ => none
  | .intercept p c pc => s.interceptStep t p c pc

/-- The caller of a finished `Write` stores other bytes in its buffer. -/
def reuse (s : Sys) (w : WriteId) (data : Bytes) : Option Sys :=
  if (s.bufs w).inUse = false ∧ data.length = (s.bufs w).data.length then
    some (s.setBuf w { s.bufs w with data := data })
  else none

/-- The owner of an intercepting channel takes a chunk from it. -/
def userRecv (s : Sys) (c : Nat) : Option Sys :=
  match (s.chans (.user c)).recv with
  | .done (_, ch) => some (s.setChan (.user c) ch)
  | _ => none

/-- One round of `go_netif_read`: a frame of at most 1518 bytes is read and posted. -/
def readFrame (s : Sys) (frame : Bytes) : Option Sys :=
  if 1 ≤ frame.length ∧ frame.length ≤ 1518 then
    match s.inputQueue.send frame with
    | .done q => some ((s.setInputQueue q).emit (.frameRead frame))
    | _ => none
  else none

end Sys

end LwipCs
