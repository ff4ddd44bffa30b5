import LwipCs.Csocks.Route
import LwipCs.Interleave.Chan
import LwipCs.Interleave.Machine
import LwipCs.Interleave.Trace

/-!
# The DNS processor as a machine

`DNSProcessor.ProcConn` starts one `proc` loop for each UDP flow to port 53. The
loops share the map `conns`; the lock is held for one access of the map at a time,
so an access is one step. `DNSConn.Close`, which the next processor may call from
any goroutine once it was handed the connection, takes its statements one by one.

The resolver behind the next processor reads queries from a `DNSConn` and writes
responses through the `DNSRecordConn` around it. `DNSRecordConn.Write` first records
the answers, in one step, and then writes to the client, which may block or fail.
-/

namespace LwipCs

namespace Csocks

open Interleave

/-- A connection handed to `DNSProcessor.ProcConn`. -/
abbrev ClientId := Nat

abbrev DnsId := Nat

/-- `fmt.Sprintf("%p-%v", r, target)`, for `r` at an address. -/
def connKey (addr : Nat) (target : Text) : Text :=
  ['0', 'x'] ++ Nat.toDigits 16 addr ++ '-' :: target

/-- A message `proc` read and decoded. They are numbered as they arrive. -/
structure Query where
  id : Nat
  client : ClientId
  data : Bytes
  deriving DecidableEq, Repr

/-- `DNSConn`, with the target that `Next.ProcConn` was called with. -/
structure DNSConn where
  key : Text
  base : ClientId
  target : Text
  readQueued : Chan Query
  closed : Bool

def newDNSConn (key : Text) (base : ClientId) (target : Text) : DNSConn :=
  ⟨key, base, target, Chan.make 1024, false⟩

/-- Where a `proc` loop stands; `off` before it starts and after it returns. -/
inductive ProcPc
  | off
  | read
  | target (q : Query) (name : Text)
  | lookup (q : Query) (target : Text)
  | create (q : Query) (target : Text)
  | calling (q : Query) (c : DnsId)
  | store (q : Query) (c : DnsId)
  | push (q : Query) (c : DnsId)
  deriving DecidableEq, Repr

/-- Where a goroutine stands in `DNSConn.Close`. -/
inductive CloserPc
  | idle
  | test (c : DnsId)
  | mark (c : DnsId)
  | closeQueue (c : DnsId)
  | delete (c : DnsId)
  deriving DecidableEq, Repr

inductive Event
  /-- `OnAccept` for a connection to the address -/
  | accepted (type : PcbType) (ip : NetIP) (port : UInt16) (route : Route)
  /-- `proc` read and decoded a message -/
  | received (q : Query)
  /-- `Target` of the name of its first question -/
  | found (q : Query) (name target : Text)
  /-- `Next.ProcConn` handed the connection on -/
  | opened (c : DnsId) (route : Route)
  | queued (c : DnsId) (q : Query)
  /-- `DNSConn.Read` took the query from the channel -/
  | taken (c : DnsId) (q : Query)
  /-- `DNSRecordConn.Write` was called on `c` and has recorded the response -/
  | answered (c : DnsId) (p : Bytes)
  /-- `DNSConn.Write` returned without an error: the response went to the client -/
  | relayed (c : DnsId) (r : ClientId) (p : Bytes)
  deriving DecidableEq, Repr

structure Sys where
  addr : ClientId → Nat
  loops : ClientId → ProcPc
  nextClient : ClientId
  objs : DnsId → Option DNSConn
  nextConn : DnsId
  conns : Text → Option DnsId
  closers : Nat → CloserPc
  /-- the goroutines in `DNSRecordConn.Write` that are at `d.base.Write` -/
  writers : Nat → Option (DnsId × Bytes)
  record : DNSRecordProcessor
  nextQuery : Nat
  trace : List Event
  panic : Option Panic

/-- The state after `NewLwipHandler`. -/
def Sys.init : Sys where
  addr _ := 0
  loops _ := .off
  nextClient := 0
  objs _ := none
  nextConn := 0
  conns _ := none
  closers _ := .idle
  writers _ := none
  record := .new
  nextQuery := 0
  trace := []
  panic := none

/-- Actions, with what the code outside answers: what `Read` returns, the result of
`Target`, whether `Next.ProcConn` fails after it handed the connection on, whether the
`Write` of the client succeeds. -/
inductive Act
  | accept (type : PcbType) (ip : NetIP) (port : UInt16) (addr : Nat)
  | recv (r : ClientId) (data : Option Bytes)
  | target (r : ClientId) (target : Text)
  | lookup (r : ClientId)
  | create (r : ClientId)
  | returned (r : ClientId) (ok : Bool)
  | store (r : ClientId)
  | push (r : ClientId)
  | connRead (c : DnsId)
  | respond (t : Nat) (c : DnsId) (p : Bytes)
  | written (t : Nat) (ok : Bool)
  | close (t : Nat) (c : DnsId)
  | closeStep (t : Nat)
  deriving DecidableEq, Repr

namespace Sys

@[simps -fullyApplied]
def emit (s : Sys) (e : Event) : Sys := { s with trace := s.trace ++ [e] }

@[simps -fullyApplied]
def crash (s : Sys) (p : Panic) : Sys := { s with panic := some p }

@[simps -fullyApplied]
def setLoop (s : Sys) (r : ClientId) (pc : ProcPc) : Sys :=
  { s with loops := Function.update s.loops r pc }

@[simps -fullyApplied]
def setConn (s : Sys) (c : DnsId) (o : DNSConn) : Sys :=
  { s with objs := Function.update s.objs c (some o) }

@[simps -fullyApplied]
def setEntry (s : Sys) (key : Text) (c : Option DnsId) : Sys :=
  { s with conns := Function.update s.conns key c }

@[simps -fullyApplied]
def setCloser (s : Sys) (t : Nat) (pc : CloserPc) : Sys :=
  { s with closers := Function.update s.closers t pc }

@[simps -fullyApplied]
def setWriter (s : Sys) (t : Nat) (w : Option (DnsId × Bytes)) : Sys :=
  { s with writers := Function.update s.writers t w }

/-- Neither a running loop nor a connection in the map points to a client at the address. -/
def free (s : Sys) (addr : Nat) : Bool :=
  (List.range s.nextClient).all (fun r => s.loops r = .off ∨ s.addr r ≠ addr) &&
    (List.range s.nextConn).all fun c =>
      (s.objs c).all fun o => s.conns o.key ≠ some c ∨ s.addr o.base ≠ addr

/-- `DNSProcessor.ProcConn`: a `proc` loop for a connection allocated at the address. -/
def startProc (s : Sys) (addr : Nat) : Sys :=
  { s with
    addr := Function.update s.addr s.nextClient addr
    loops := Function.update s.loops s.nextClient .read
    nextClient := s.nextClient + 1 }

def accept (s : Sys) (lib : Lib) (type : PcbType) (ip : NetIP) (port : UInt16) (addr : Nat) :
    Option Sys :=
  let route := onAccept lib s.record type ip port
  let s := s.emit (.accepted type ip port route)
  if route = .dns then
    if s.free addr then some (s.startProc addr) else none
  else some s

/-- `r.Read`, with a buffer of 4096 bytes, then `msg.Unpack` and `msg.Question[0]`. -/
def recv (s : Sys) (lib : Lib) (r : ClientId) (data : Option Bytes) : Option Sys :=
  match s.loops r with
  | .read =>
      match data with
      | none => some (s.setLoop r .off)
      | some buf =>
          if 4096 < buf.length then none
          else match lib.unpack buf with
            | none => some (s.setLoop r .off)
            | some msg =>
                match msg.question with
                | [] => some (s.crash .indexOutOfRange)
                | name :: _ =>
                    let q : Query := ⟨s.nextQuery, r, buf⟩
                    some ((({ s with nextQuery := s.nextQuery + 1 }).emit (.received q)).setLoop r
                      (.target q name))
  | _ => none

def target (s : Sys) (r : ClientId) (target : Text) : Option Sys :=
  match s.loops r with
  | .target q name => some ((s.emit (.found q name target)).setLoop r (.lookup q target))
  | _ => none

def lookup (s : Sys) (r : ClientId) : Option Sys :=
  match s.loops r with
  | .lookup q target =>
      match s.conns (connKey (s.addr r) target) with
      | some c => some (s.setLoop r (.push q c))
      | none => some (s.setLoop r (.create q target))
  | _ => none

/-- `NewDNSConn`, and `Next.ProcConn` until the proxy or direct processor is called.
Where `PACProcessor` fails nobody gets to see the connection. -/
def create (s : Sys) (lib : Lib) (r : ClientId) : Option Sys :=
  match s.loops r with
  | .create q target =>
      match pacProcessor lib s.record target with
      | .failed _ => some (s.setLoop r .read)
      | route =>
          let c := s.nextConn
          let o := newDNSConn (connKey (s.addr r) target) r target
          some (((({ s with nextConn := c + 1 }).setConn c o).emit (.opened c route)).setLoop r
            (.calling q c))
  | _ => none

def returned (s : Sys) (r : ClientId) (ok : Bool) : Option Sys :=
  match s.loops r with
  | .calling q c => some (s.setLoop r (if ok then .store q c else .read))
  | _ => none

/-- `d.conns[key] = conn`, with the key the connection was made with. -/
def store (s : Sys) (r : ClientId) : Option Sys :=
  match s.loops r with
  | .store q c =>
      (s.objs c).map fun o => (s.setEntry o.key (some c)).setLoop r (.push q c)
  | _ => none

/-- `conn.readQueued <- buf[0:n]`. -/
def push (s : Sys) (r : ClientId) : Option Sys :=
  match s.loops r with
  | .push q c =>
      (s.objs c).bind fun o =>
        match o.readQueued.send q with
        | .done ch =>
            some (((s.setConn c { o with readQueued := ch }).emit (.queued c q)).setLoop r .read)
        | .panics => some (s.crash .sendOnClosed)
        | .blocked => none
  | _ => none

/-- `DNSConn.Read`. A query that does not fit the buffer is taken all the same. -/
def connRead (s : Sys) (c : DnsId) : Option Sys :=
  (s.objs c).bind fun o =>
    match o.readQueued.recv with
    | .done (some q, ch) => some ((s.setConn c { o with readQueued := ch }).emit (.taken c q))
    | .done (none, _) => some s
    | _ => none

/-- `DNSRecordConn.Write` up to `d.base.Write`. -/
def respond (s : Sys) (lib : Lib) (t : Nat) (c : DnsId) (p : Bytes) : Option Sys :=
  if s.writers t = none ∧ (s.objs c).isSome then
    some ((({ s with record := s.record.recordMsg lib p }).emit (.answered c p)).setWriter t
      (some (c, p)))
  else none

/-- `d.base.Write` in `DNSRecordConn.Write`: `DNSConn.Write`, which writes to the client. -/
def written (s : Sys) (t : Nat) (ok : Bool) : Option Sys :=
  match s.writers t with
  | some (c, p) =>
      (s.objs c).map fun o => (if ok then s.emit (.relayed c o.base p) else s).setWriter t none
  | none => none

/-- A goroutine calls `Close` on a connection it was handed. -/
def close (s : Sys) (t : Nat) (c : DnsId) : Option Sys :=
  if s.closers t = .idle ∧ (s.objs c).isSome then some (s.setCloser t (.test c)) else none

def closeStep (s : Sys) (t : Nat) : Option Sys :=
  match s.closers t with
  | .idle => none
  | .test c =>
      (s.objs c).map fun o => s.setCloser t (if o.closed then .idle else .mark c)
  | .mark c =>
      (s.objs c).map fun o => (s.setConn c { o with closed := true }).setCloser t (.closeQueue c)
  | .closeQueue c =>
      (s.objs c).bind fun o =>
        match o.readQueued.close with
        | .done ch => some ((s.setConn c { o with readQueued := ch }).setCloser t (.delete c))
        | .panics => some (s.crash .closeOfClosed)
        | .blocked => none
  | .delete c =>
      (s.objs c).map fun o => (s.setEntry o.key none).setCloser t .idle

def act (s : Sys) (lib : Lib) : Act → Option Sys
  | .accept type ip port addr => s.accept lib type ip port addr
  | .recv r data => s.recv lib r data
  | .target r target => s.target r target
  | .lookup r => s.lookup r
  | .create r => s.create lib r
  | .returned r ok => s.returned r ok
  | .store r => s.store r
  | .push r => s.push r
  | .connRead c => s.connRead c
  | .respond t c p => s.respond lib t c p
  | .written t ok => s.written t ok
  | .close t c => s.close t c
  | .closeStep t => s.closeStep t

/-- A panic ends the process. -/
def step (lib : Lib) (s : Sys) (a : Act) : Option Sys :=
  match s.panic with
  | none => s.act lib a
  | some _ => none

end Sys

/-- The processors of `NewLwipHandler` with everything around them. -/
def csocks (lib : Lib) : Machine Sys Act := ⟨Sys.init, Sys.step lib⟩

end Csocks

end LwipCs
