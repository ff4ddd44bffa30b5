import LwipCs.Bridge.ReadComplete
import LwipCs.Bridge.Released

/-!
# Credits on their way to lwIP

`Read` posts the length of each chunk to `recvedQueue`, and the loop hands it to
`tcp_recved` unless `err` of the PCB is set by then. What the Reads of a PCB returned is
credited, posted, or dropped.
-/

namespace LwipCs

open Interleave

/-- How many bytes the Reads of the PCB returned. -/
def returned (p : PcbId) (trace : List Event) : Nat :=
  ((select (Event.readOn p) trace).map List.length).sum

/-- The bytes of one call of `tcp_recved` on the connection. -/
def Event.creditTo (k : ConnId) : Event → Option Nat
  | .lwip j _ (.recved n) => if j = k then some n else none
  | _ => none

/-- Events that return bytes or credit them. -/
def Event.ofCredit : Event → Bool
  | .readOk _ _ _ | .lwip _ _ (.recved _) => true
  | _ => false

/-- How many bytes of the connection were credited to lwIP. -/
def credited (k : ConnId) (trace : List Event) : Nat := (select (Event.creditTo k) trace).sum

/-- Every byte that the Reads of the PCB returned was credited to lwIP. -/
def Sys.Credited (s : Sys) (p : PcbId) : Prop :=
  credited (s.pcbs p).conn s.trace = returned p s.trace

/-- The bytes of the pbuf lwIP hands over. -/
def Callback.payload : Callback → Option Bytes
  | .recv _ p _ => p
  | .udp _ _ p => p
  | _ => none

/-- The `tot_len` of a pbuf is a `u16_t`. -/
def ShortPbufs (_ : Sys) : Act → Prop
  | .callback cb _ => ∀ data, cb.payload = some data → data.length < 2 ^ 16
  | _ => True

theorem Callback.short {cb : Callback} (h : (cb.payload.getD []).length < 2 ^ 16) :
    ∀ data, cb.payload = some data → data.length < 2 ^ 16 := by
  intro data hdata
  simpa [hdata] using h

/-- The loop finds `err` of the PCB not set when it takes a credit of it. -/
def CreditsOpen (p : PcbId) (s : Sys) : Act → Prop
  | .loop _ => ∀ r, s.loop = .credit r → r.pcb = p → (s.pcbs p).err = false
  | _ => True

/-- The entry of `recvedQueue` in the hands of the loop. -/
def LoopPc.crediting : LoopPc → List RecvedEntry
  | .credit r => [r]
  | _ => []

/-- Chunks fit in a `u16_t`, and credits are not empty. -/
structure Short (chans : RecvChan → Chan Bytes) (threads : Tid → Thread)
    (entries : List RecvedEntry) (loop : LoopPc) : Prop where
  chans : ∀ r, ∀ data ∈ (chans r).buf, data.length < 2 ^ 16
  threads : ∀ t p len data, threads t = .read p len (.credit data) →
    data ≠ [] ∧ data.length < 2 ^ 16
  entries : ∀ r ∈ entries, 0 < r.len ∧ r.len < 2 ^ 16
  loop : ∀ p data ctx target, loop = .push p data ctx target → data.length < 2 ^ 16

/-- `Short` of a state of the system. -/
abbrev Sys.InShort (s : Sys) : Prop :=
  Short s.chans s.threads (s.loop.crediting ++ s.recvedQueue.buf) s.loop

namespace Short

variable {chans : RecvChan → Chan Bytes} {threads : Tid → Thread} {loop loop' : LoopPc}
variable {entries : List RecvedEntry} {rest : List RecvedEntry}

/-- A goroutine moves, with a short chunk if it holds one. -/
theorem setThread (h : Short chans threads entries loop) {t : Tid} {th : Thread}
    (hth : ∀ p len data, th = .read p len (.credit data) → data ≠ [] ∧ data.length < 2 ^ 16) :
    Short chans (Function.update threads t th) entries loop := by
  refine { h with threads := ?_ }
  intro u p len data hu
  by_cases hut : u = t
  · subst hut
    rw [Function.update_self] at hu
    exact hth p len data hu
  · rw [Function.update_of_ne hut] at hu
    exact h.threads u p len data hu

/-- A goroutine moves to where it holds no chunk. -/
theorem move (h : Short chans threads entries loop) {t : Tid} {th : Thread}
    (hth : ∀ p, th.received p = []) :
    Short chans (Function.update threads t th) entries loop := by
  refine h.setThread ?_
  rintro p len data rfl
  have hnone := hth p
  rw [Thread.received, if_pos rfl] at hnone
  cases hnone

theorem setChan (h : Short chans threads entries loop) {r : RecvChan} {ch : Chan Bytes}
    (hch : ∀ data ∈ ch.buf, data.length < 2 ^ 16) :
    Short (Function.update chans r ch) threads entries loop := by
  refine { h with chans := ?_ }
  intro r' data hdata
  by_cases hr : r' = r
  · subst hr
    rw [Function.update_self] at hdata
    exact hch data hdata
  · rw [Function.update_of_ne hr] at hdata
    exact h.chans r' data hdata

/-- A receive leaves chunks of the channel. -/
theorem recv (h : Short chans threads entries loop) {r : RecvChan} {ch : Chan Bytes}
    {chunk : Option Bytes} (hrecv : (chans r).recv = .done (chunk, ch)) :
    Short (Function.update chans r ch) threads entries loop := by
  refine h.setChan fun data hdata => h.chans r data ?_
  rcases Chan.recv_done hrecv with ⟨x, _, hbuf, _⟩ | ⟨_, rfl, _⟩
  · rw [hbuf]
    exact List.mem_cons_of_mem _ hdata
  · exact hdata

theorem close (h : Short chans threads entries loop) {r : RecvChan} {ch : Chan Bytes}
    (hclose : (chans r).close = .done ch) :
    Short (Function.update chans r ch) threads entries loop := by
  refine h.setChan fun data hdata => h.chans r data ?_
  rwa [(Chan.close_done hclose).2.1] at hdata

/-- A goroutine posts a credit. -/
theorem post {q q' : Chan RecvedEntry} (h : Short chans threads (loop.crediting ++ q.buf) loop)
    {r : RecvedEntry} (hsend : q.send r = .done q') (hpos : 0 < r.len) (hlen : r.len < 2 ^ 16) :
    Short chans threads (loop.crediting ++ q'.buf) loop := by
  refine { h with entries := ?_ }
  intro r' hr
  rw [(Chan.send_done hsend).2.2.1, ← List.append_assoc] at hr
  rcases List.mem_append.mp hr with hr | hr
  · exact h.entries r' hr
  · rw [List.mem_singleton.mp hr]
    exact ⟨hpos, hlen⟩

/-- A receive handler queues its chunk. -/
theorem queue (h : Short chans threads entries loop) {r : RecvChan} {ch : Chan Bytes}
    {data : Bytes} (hsend : (chans r).send data = .done ch) (hdata : data.length < 2 ^ 16) :
    Short (Function.update chans r ch) threads entries loop := by
  refine h.setChan fun data' hmem => ?_
  rw [(Chan.send_done hsend).2.2.1] at hmem
  rcases List.mem_append.mp hmem with hmem | hmem
  · exact h.chans r data' hmem
  · rw [List.mem_singleton.mp hmem]
    exact hdata

/-- The loop goes where it holds no chunk and no credit. -/
theorem goto (h : Short chans threads (loop.crediting ++ rest) loop)
    (hcrediting : loop'.crediting = []) (hpushing : ∀ p, loop'.pushing p = []) :
    Short chans threads (loop'.crediting ++ rest) loop' where
  chans := h.chans
  threads := h.threads
  entries r hr := by
    rw [hcrediting, List.nil_append] at hr
    exact h.entries r (List.mem_append_right _ hr)
  loop := by
    rintro p data ctx target rfl
    have hnone := hpushing p
    rw [LoopPc.pushing, if_pos rfl] at hnone
    cases hnone

/-- A receive handler has a chunk to queue. -/
theorem push (h : Short chans threads (loop.crediting ++ rest) loop) {p : PcbId} {data : Bytes}
    {ctx : PushCtx} {target : Option RecvChan} (hdata : data.length < 2 ^ 16) :
    Short chans threads (LoopPc.crediting (.push p data ctx target) ++ rest)
      (.push p data ctx target) where
  chans := h.chans
  threads := h.threads
  entries r hr := h.entries r (List.mem_append_right _ hr)
  loop := by
    rintro _ _ _ _ ⟨⟩
    exact hdata

end Short

variable {cfg : Config} {s t : Sys} {o : Outcomes} {p : PcbId}

theorem ReadStep.short {th : Tid} {q : PcbId} {len : Nat} {pc : ReadPc}
    (hth : s.threads th = .read q len pc) (h : ReadStep s th q len pc t) (hs : s.InShort) :
    t.InShort := by
  cases h with
  | intercepted _ => exact hs
  | enter _ => exact hs.move fun _ => rfl
  | closed _ => exact hs.move fun _ => rfl
  | isOpen _ => exact hs.move fun _ => rfl
  | load => exact hs.move fun _ => rfl
  | nothing hrecv _ => exact (hs.recv hrecv).move fun _ => rfl
  | tooSmall hrecv _ => exact hs.recv hrecv
  | @chunk r ch data hrecv hdata hlen htype =>
      have hshort : data.length < 2 ^ 16 := by
        refine hs.chans r data ?_
        rw [(Chan.recv_some hrecv).1]
        exact List.mem_cons_self
      refine (hs.recv hrecv).setThread ?_
      rintro _ _ _ ⟨⟩
      exact ⟨hdata, hshort⟩
  | datagram hrecv _ _ _ => exact (hs.recv hrecv).move fun _ => rfl
  | errRet _ => exact hs.move fun _ => rfl
  | nilRet _ => exact hs.move fun _ => rfl
  | @credit data q' hsend =>
      obtain ⟨hdata, hlen⟩ := hs.threads th q len data hth
      exact (hs.post hsend (List.length_pos_iff.mpr hdata) hlen).move fun _ => rfl

theorem CloseStep.short {who : Actor} {q : PcbId} {pc : ClosePc} {next : Option ClosePc}
    (h : CloseStep s who q pc t next) (hs : s.InShort) : t.InShort := by
  cases h with
  | closeRecv _ hclose => exact hs.close hclose
  | _ => exact hs

theorem LoopStep.short {pc : LoopPc} (hpc : s.loop = pc) (h : LoopStep cfg s o pc t)
    (hs : s.InShort) : t.InShort := by
  cases h with
  | sendEmpty _ => exact hs
  | udpSendEmpty _ => exact hs
  | @target q data ctx => exact hs.push (hs.loop q data ctx none hpc)
  | pushClosed _ => exact hs
  | @push q data k r ch hsend =>
      exact (hs.queue hsend (hs.loop q data _ _ hpc)).goto rfl fun _ => rfl
  | @pushUdp q data src dst old r ch hsend =>
      exact (hs.queue hsend (hs.loop q data _ _ hpc)).goto rfl fun _ => rfl
  | doneClosed _ => exact hs
  | @close q pc pc' a e k s' hclose => exact (hclose.short hs).goto rfl fun _ => rfl
  | _ => exact hs.goto rfl fun _ => rfl

theorem CallbackStep.short {cb : Callback} (h : CallbackStep cfg s o cb t)
    (hok : ShortPbufs s (.callback cb o)) (hs : s.InShort) : t.InShort := by
  cases h with
  | ignored => exact hs
  | accept _ _ => exact hs
  | assertion => exact hs
  | recvEmpty _ _ _ _ _ _ => exact hs
  | recv _ _ _ _ _ _ _ => exact hs.push (hok _ rfl)
  | udpEmpty => exact hs
  | udpKnown _ _ => exact hs.push (hok _ rfl)
  | udpNew _ _ => exact hs.push (hok _ rfl)
  | _ => exact hs.goto rfl fun _ => rfl

theorem Step.short {a : Act} (h : Step cfg s a t) (hok : ShortPbufs s a) (hs : s.InShort) :
    t.InShort := by
  cases h with
  | callRead _ _ => exact hs.move fun _ => rfl
  | callWrite _ _ => exact hs.move fun _ => rfl
  | callClose _ _ => exact hs.move fun _ => rfl
  | callIntercept _ _ => exact hs.move fun _ => rfl
  | read hth h => exact h.short hth hs
  | write _ h => cases h <;> exact hs.move fun _ => rfl
  | close _ h => exact (h.short hs).move fun _ => rfl
  | closed _ => exact hs.move fun _ => rfl
  | closePost _ _ => exact hs.move fun _ => rfl
  | intercept _ h =>
      cases h with
      | closeOld hclose => exact (hs.close hclose).move fun _ => rfl
      | closedOld _ => exact hs
      | _ => exact hs.move fun _ => rfl
  | reuse _ _ => exact hs
  | frame _ => exact hs
  | userRecv hrecv => exact hs.recv hrecv
  | takeRecved hloop hrecv =>
      rw [Sys.InShort, hloop, (Chan.recv_some hrecv).1] at hs
      refine { hs with loop := nofun }
  | takeClose _ _ _ => exact hs
  | takeCloseUdp _ _ _ => exact hs
  | takeSend _ _ => exact hs.goto rfl fun _ => rfl
  | takeInput _ _ => exact hs.goto rfl fun _ => rfl
  | loop hpc h => exact h.short hpc hs
  | callback _ h => exact h.short hok hs
  | release _ _ _ => exact hs

theorem run_short {tr : List (Sys × Act)} (hrun : (bridge cfg).Run tr s)
    (hok : Machine.Meets ShortPbufs tr) : s.InShort := by
  refine hrun.invariant_under (I := Sys.InShort) hok reachable_inOrder ?_ ?_
  · refine ⟨?_, nofun, nofun, nofun⟩
    intro r data hdata
    cases r <;> cases hdata
  · intro s a t hin _ hs hok hstep
    exact (step_cases hin hstep).short hok hs

/-! ### The balance -/

/-- The bytes posted for the PCB and not taken yet. -/
def posted (p : PcbId) (entries : List RecvedEntry) : Nat :=
  ((entries.filter (·.pcb = p)).map (·.len)).sum

/-- The bytes of the PCB whose credit the step drops. -/
def Sys.drops (p : PcbId) (s : Sys) : Act → Nat
  | .loop _ => match s.loop with
    | .credit r => if r.pcb = p ∧ (s.pcbs p).err = true then r.len else 0
    | _ => 0
  | _ => 0

/-- The bytes of the PCB whose credits were dropped. -/
def dropped (p : PcbId) (tr : List (Sys × Act)) : Nat := (tr.map fun x => x.1.drops p x.2).sum

/-- What the Reads of the TCP PCB `p` returned was credited, is posted, or was dropped. -/
structure Ledger (p nextPcb : PcbId) (pcbs : PcbId → PCB) (entries : List RecvedEntry)
    (nextConn : ConnId) (trace : List Event) (dropped : Nat) : Prop where
  fresh : ∀ k, nextConn ≤ k → credited k trace = 0
  unmade : nextPcb ≤ p → returned p trace = 0 ∧ posted p entries = 0 ∧ dropped = 0
  balance : Made nextPcb pcbs .tcp p →
    returned p trace = credited (pcbs p).conn trace + posted p entries + dropped

@[simp] theorem posted_nil : posted p [] = 0 := rfl

@[simp] theorem posted_cons (r : RecvedEntry) (rest : List RecvedEntry) :
    posted p (r :: rest) = (if r.pcb = p then r.len else 0) + posted p rest := by
  by_cases hr : r.pcb = p <;> simp [posted, hr]

@[simp] theorem posted_append (a b : List RecvedEntry) :
    posted p (a ++ b) = posted p a + posted p b := by
  simp [posted]

@[simp] theorem returned_snoc (trace : List Event) (ev : Event) :
    returned p (trace ++ [ev]) = returned p trace + ((ev.readOn p).map List.length).getD 0 := by
  rw [returned, returned, select_snoc, List.map_append, List.sum_append]
  cases ev.readOn p <;> simp

@[simp] theorem credited_snoc (k : ConnId) (trace : List Event) (ev : Event) :
    credited k (trace ++ [ev]) = credited k trace + (ev.creditTo k).getD 0 := by
  rw [credited, credited, select_snoc, List.sum_append]
  cases ev.creditTo k <;> simp

namespace Ledger

variable {nextPcb : PcbId} {pcbs : PcbId → PCB} {entries rest : List RecvedEntry}
variable {nextConn : ConnId} {trace : List Event} {d : Nat} {ev : Event}

theorem emit (h : Ledger p nextPcb pcbs entries nextConn trace d)
    (hread : ev.readOn p = none) (hcredit : ∀ k, ev.creditTo k = none) :
    Ledger p nextPcb pcbs entries nextConn (trace ++ [ev]) d := by
  obtain ⟨hfresh, hunmade, hbalance⟩ := h
  constructor
  · simpa [hcredit] using hfresh
  · simpa [hread] using hunmade
  · simpa [hread, hcredit] using hbalance

/-- An event that moves no bytes. -/
theorem skip (h : Ledger p nextPcb pcbs entries nextConn trace d) (hev : ev.ofCredit = false) :
    Ledger p nextPcb pcbs entries nextConn (trace ++ [ev]) d := by
  refine h.emit ?_ ?_
  · cases ev with
    | readOk _ _ _ => cases hev
    | _ => rfl
  · intro k
    cases ev with
    | lwip _ _ call =>
        cases call with
        | recved _ => cases hev
        | _ => rfl
    | _ => rfl

/-- `if Event != nil { Event.… }` -/
theorem notify (h : Ledger p nextPcb pcbs entries nextConn trace d) (b : Bool)
    (hev : ev.ofCredit = false) :
    Ledger p nextPcb pcbs entries nextConn (trace ++ if b then [ev] else []) d :=
  snoc_if (P := fun tr => Ledger p nextPcb pcbs entries nextConn tr d) b h (h.skip hev)

theorem setPcb (h : Ledger p nextPcb pcbs entries nextConn trace d) {q : PcbId} {x : PCB}
    (hflow : x.toFlow = (pcbs q).toFlow) :
    Ledger p nextPcb (Function.update pcbs q x) entries nextConn trace d := by
  refine { h with balance := ?_ }
  simpa only [Made, flow_update hflow] using h.balance

/-- A PCB of a datagram flow is made. -/
theorem newUdp (h : Ledger p nextPcb pcbs entries nextConn trace d) {x : PCB}
    (htype : x.type = .udp) :
    Ledger p (nextPcb + 1) (Function.update pcbs nextPcb x) entries nextConn trace d := by
  refine { h with unmade := fun hp => h.unmade (Nat.le_of_succ_le hp), balance := ?_ }
  rintro ⟨hlt, htcp⟩
  have hne : p ≠ nextPcb := by
    rintro rfl
    rw [Function.update_self, htype] at htcp
    cases htcp
  rw [Function.update_of_ne hne] at htcp ⊢
  exact h.balance ⟨Nat.lt_of_le_of_ne (Nat.le_of_lt_succ hlt) hne, htcp⟩

/-- The PCB of an accepted connection is made. -/
theorem newTcp (h : Ledger p nextPcb pcbs entries nextConn trace d) {x : PCB}
    (hconn : x.conn = nextConn) :
    Ledger p (nextPcb + 1) (Function.update pcbs nextPcb x) entries (nextConn + 1) trace d := by
  constructor
  · exact fun k hk => h.fresh k (Nat.le_of_succ_le hk)
  · exact fun hp => h.unmade (Nat.le_of_succ_le hp)
  · rintro ⟨hlt, htcp⟩
    by_cases hp : p = nextPcb
    · subst hp
      obtain ⟨hreturned, hposted, hdropped⟩ := h.unmade (Nat.le_refl p)
      rw [Function.update_self, hconn, hreturned, hposted, hdropped, h.fresh _ (Nat.le_refl _)]
    · rw [Function.update_of_ne hp] at htcp ⊢
      exact h.balance ⟨Nat.lt_of_le_of_ne (Nat.le_of_lt_succ hlt) hp, htcp⟩

/-- `Read` of a UDP PCB. -/
theorem datagram (h : Ledger p nextPcb pcbs entries nextConn trace d) {t : Tid} {q : PcbId}
    {data : Bytes} (hq : q < nextPcb) (htype : (pcbs q).type = .udp) :
    Ledger p nextPcb pcbs entries nextConn (trace ++ [.readOk t q data]) d := by
  by_cases hqp : q = p
  · subst hqp
    constructor
    · simpa [Event.creditTo] using h.fresh
    · exact fun hp => absurd hq (Nat.not_lt_of_le hp)
    · rintro ⟨_, htcp⟩
      rw [htype] at htcp
      cases htcp
  · exact h.emit (if_neg hqp) fun _ => rfl

/-- `Read` of a TCP PCB posts what it returns. -/
theorem read (h : Ledger p nextPcb pcbs entries nextConn trace d) {t : Tid} {q : PcbId}
    {data : Bytes} (hq : q < nextPcb) :
    Ledger p nextPcb pcbs (entries ++ [⟨q, data.length⟩]) nextConn
      (trace ++ [.readOk t q data]) d := by
  by_cases hqp : q = p
  · subst hqp
    constructor
    · simpa [Event.creditTo] using h.fresh
    · exact fun hp => absurd hq (Nat.not_lt_of_le hp)
    · intro hmade
      have hbalance := h.balance hmade
      simp only [returned_snoc, credited_snoc, Event.readOn, Event.creditTo, posted_append,
        posted_cons, posted_nil, if_pos, Option.map_some, Option.getD_some, Option.getD_none]
      omega
  · have hsame : posted p (entries ++ [⟨q, data.length⟩]) = posted p entries := by simp [hqp]
    have hemit : Ledger p nextPcb pcbs entries nextConn (trace ++ [.readOk t q data]) d :=
      h.emit (if_neg hqp) fun _ => rfl
    exact { hemit with
      unmade := hsame ▸ hemit.unmade
      balance := hsame ▸ hemit.balance }

/-- The loop credits an entry. -/
theorem credit {r : RecvedEntry} {a : Ptr}
    (h : Ledger p nextPcb pcbs (r :: rest) nextConn trace d) (hlen : r.len < 2 ^ 16)
    (hlt : (pcbs r.pcb).conn < nextConn)
    (hinj : Made nextPcb pcbs .tcp p → (pcbs r.pcb).conn = (pcbs p).conn → r.pcb = p) :
    Ledger p nextPcb pcbs rest nextConn
      (trace ++ [.lwip (pcbs r.pcb).conn a (.recved (u16 r.len))]) d := by
  obtain ⟨hfresh, hunmade, hbalance⟩ := h
  constructor
  · intro k hk
    have hne : (pcbs r.pcb).conn ≠ k := by
      rintro rfl
      exact absurd hlt (Nat.not_lt_of_le hk)
    simp [Event.creditTo, hne, hfresh k hk]
  · intro hp
    obtain ⟨hreturned, hposted, hdropped⟩ := hunmade hp
    rw [posted_cons] at hposted
    simp only [returned_snoc, Event.readOn, Option.map_none, Option.getD_none]
    omega
  · intro hmade
    have hsum := hbalance hmade
    rw [posted_cons] at hsum
    simp only [returned_snoc, credited_snoc, Event.readOn, Event.creditTo, Option.map_none,
      Option.getD_none]
    by_cases hrp : r.pcb = p
    · rw [if_pos hrp] at hsum
      rw [if_pos (by rw [hrp]), Option.getD_some, u16_of_lt hlen]
      omega
    · rw [if_neg hrp] at hsum
      rw [if_neg (fun hconn => hrp (hinj hmade hconn)), Option.getD_none]
      omega

/-- The loop drops an entry. -/
theorem drop {r : RecvedEntry} (h : Ledger p nextPcb pcbs (r :: rest) nextConn trace d) :
    Ledger p nextPcb pcbs rest nextConn trace (d + if r.pcb = p then r.len else 0) := by
  obtain ⟨hfresh, hunmade, hbalance⟩ := h
  refine ⟨hfresh, ?_, ?_⟩
  · intro hp
    obtain ⟨hreturned, hposted, hdropped⟩ := hunmade hp
    rw [posted_cons] at hposted
    omega
  · intro hmade
    have hsum := hbalance hmade
    rw [posted_cons] at hsum
    omega

end Ledger

/-- `Ledger` of a state of the system. -/
abbrev Sys.InLedger (s : Sys) (p : PcbId) (dropped : Nat) : Prop :=
  Ledger p s.nextPcb s.pcbs (s.loop.crediting ++ s.recvedQueue.buf) s.nextConn s.trace dropped

variable {d : Nat}

theorem ReadStep.ledger {th : Tid} {q : PcbId} {len : Nat} {pc : ReadPc}
    (hth : s.threads th = .read q len pc) (h : ReadStep s th q len pc t) (hin : s.InOrder)
    (hs : s.InLedger p d) : t.InLedger p d := by
  have hok : Thread.Ok s.nextPcb s.pcbs (.read q len pc) := hth ▸ hin.known.threads th
  cases h with
  | closed _ => exact hs.skip rfl
  | datagram _ _ _ htype => exact hs.datagram hok htype
  | errRet _ => exact hs.skip rfl
  | nilRet _ => exact hs.skip rfl
  | credit hsend =>
      rw [Sys.InLedger, (Chan.send_done hsend).2.2.1, ← List.append_assoc]
      exact hs.read hok.1
  | _ => exact hs

theorem WriteStep.ledger {th : Tid} {q : PcbId} {w : WriteId} {pc : WritePc}
    (h : WriteStep s th q w pc t) (hs : s.InLedger p d) : t.InLedger p d := by
  cases h with
  | empty _ => exact hs.skip rfl
  | lock _ => exact (hs.skip (by rfl)).setPcb rfl
  | enqueue _ => exact hs.skip rfl
  | wait _ => exact (hs.skip (by rfl)).setPcb rfl
  | unlock => exact hs.setPcb rfl
  | post _ => exact hs.skip rfl
  | ret => exact hs.skip rfl
  | _ => exact hs

theorem CloseStep.ledger {who : Actor} {q : PcbId} {pc : ClosePc} {next : Option ClosePc}
    (h : CloseStep s who q pc t next) (hs : s.InLedger p d) : t.InLedger p d := by
  cases h with
  | lock _ => exact hs.setPcb rfl
  | setErr => exact (hs.skip (by rfl)).setPcb rfl
  | closeWait _ _ => exact hs.setPcb rfl
  | unlock => exact hs.setPcb rfl
  | _ => exact hs

theorem InterceptStep.ledger {th : Tid} {q : PcbId} {c : Nat} {pc : InterPc}
    (h : InterceptStep s th q c pc t) (hs : s.InLedger p d) : t.InLedger p d := by
  cases h with
  | lock _ => exact hs.setPcb rfl
  | twice _ => exact hs.setPcb rfl
  | set => exact hs.setPcb rfl
  | swap => exact hs.setPcb rfl
  | unlock => exact hs.setPcb rfl
  | _ => exact hs

theorem LoopStep.ledger {pc : LoopPc} (hpc : s.loop = pc) (h : LoopStep cfg s o pc t)
    (hin : s.InOrder) (hshort : s.InShort) (hs : s.InLedger p d) :
    t.InLedger p (d + s.drops p (.loop o)) := by
  have hknown := hin.known.loop
  have entry : ∀ {r}, pc = .credit r → 0 < r.len ∧ r.len < 2 ^ 16 := by
    rintro r rfl
    refine hshort.entries r (List.mem_append_left _ ?_)
    rw [hpc]
    exact List.mem_singleton_self r
  have hs' := hs
  rw [hpc] at hknown
  rw [Sys.InLedger, hpc] at hs
  rw [Sys.drops, hpc]
  cases h with
  | @creditClosed r herr =>
      by_cases hrp : r.pcb = p
      · have hdrop := hs.drop
        rw [if_pos hrp] at hdrop
        dsimp only
        rwa [if_pos ⟨hrp, hrp ▸ herr⟩]
      · have hdrop := hs.drop
        rw [if_neg hrp] at hdrop
        dsimp only
        rwa [if_neg fun h => hrp h.1]
  | @credit r herr =>
      have hopen : ¬(r.pcb = p ∧ (s.pcbs p).err = true) := by
        rintro ⟨rfl, hclosed⟩
        rw [herr] at hclosed
        cases hclosed
      dsimp only
      rw [if_neg hopen]
      exact hs.credit (entry rfl).2 (hin.table.conn_lt r.pcb hknown.1 hknown.2) fun hmade =>
        hin.table.conn_inj r.pcb p hknown.1 hmade.1 hknown.2 hmade.2
  | dropped _ => exact hs.skip rfl
  | passed _ _ => exact hs.skip rfl
  | sendEmpty _ => exact hs'
  | udpSendEmpty _ => exact hs'
  | sendFailed _ _ _ _ _ => exact (hs.skip (by rfl)).setPcb rfl
  | sendTcp _ _ _ _ _ _ _ => exact ((hs.skip (by rfl)).skip (by rfl)).setPcb rfl
  | sendUdp _ _ _ => exact (hs.skip (by rfl)).skip rfl
  | sendUdpFailed _ _ _ => exact hs.skip rfl
  | netif => exact hs.skip rfl
  | pushClosed _ => exact hs'
  | push _ => exact (hs.skip (by rfl)).skip rfl
  | pushUdp _ => exact (hs.skip (by rfl)).skip rfl
  | doneClosed _ => exact hs'
  | done _ => exact hs.setPcb rfl
  | close hclose =>
      cases hclose with
      | lock _ => exact hs.setPcb rfl
      | setErr => exact (hs.skip (by rfl)).setPcb rfl
      | closeWait _ _ => exact hs.setPcb rfl
      | _ => exact hs
  | closed => exact (((hs.notify cfg.event (by rfl)).skip (by rfl)).skip (by rfl)).setPcb rfl
  | _ => exact hs

theorem CallbackStep.ledger {cb : Callback} (hloop : s.loop = .lwip)
    (h : CallbackStep cfg s o cb t) (hs : s.InLedger p d) : t.InLedger p d := by
  have hs' := hs
  rw [Sys.InLedger, hloop] at hs
  cases h with
  | ignored => exact hs'
  | accept _ _ => exact (((hs'.skip (by rfl)).notify cfg.event (by rfl)).skip (by rfl)).newTcp rfl
  | assertion => exact hs'
  | recvClosed _ _ _ _ _ _ => exact ((hs.skip (by rfl)).skip (by rfl)).skip rfl
  | recvEmpty _ _ _ _ _ _ => exact (hs'.skip (by rfl)).skip rfl
  | recv _ _ _ _ _ _ _ => exact (hs.skip (by rfl)).skip rfl
  | fin _ _ _ _ _ => exact (hs.skip (by rfl)).skip rfl
  | err _ _ _ _ _ => exact ((hs.skip (by rfl)).skip (by rfl)).skip rfl
  | sentMore _ _ _ _ _ _ _ => exact (hs.skip (by rfl)).skip rfl
  | sentIdle _ _ _ _ _ _ _ => exact hs.skip rfl
  | sent _ _ _ _ _ _ _ _ => exact (hs.skip (by rfl)).setPcb rfl
  | pollMore _ _ _ _ _ _ _ => exact hs.skip rfl
  | udpEmpty => exact hs'
  | udpKnown _ _ => exact hs
  | udpNew _ _ => exact (hs.notify cfg.event (by rfl)).newUdp rfl

theorem Step.ledger {a : Act} (h : Step cfg s a t) (hin : s.InOrder) (hshort : s.InShort)
    (hs : s.InLedger p d) : t.InLedger p (d + s.drops p a) := by
  have select : ∀ {pc}, s.loop = .select → LoopPc.crediting pc = [] →
      Ledger p s.nextPcb s.pcbs (pc.crediting ++ s.recvedQueue.buf) s.nextConn s.trace d := by
    intro pc hloop hpc
    rw [Sys.InLedger, hloop] at hs
    rwa [hpc]
  cases h with
  | callClose _ _ => exact hs.skip rfl
  | read hth h => exact h.ledger hth hin hs
  | write _ h => exact h.ledger hs
  | close _ h => exact h.ledger hs
  | closed _ => exact hs.setPcb rfl
  | intercept _ h => exact h.ledger hs
  | frame _ => exact hs.skip rfl
  | takeRecved hloop hrecv =>
      have hbuf := (Chan.recv_some hrecv).1
      rw [Sys.InLedger, hloop, hbuf] at hs
      exact hs
  | takeClose _ _ _ => exact hs.skip rfl
  | takeCloseUdp _ _ _ => exact hs.skip rfl
  | takeSend hloop _ => exact select hloop rfl
  | takeInput hloop _ => exact select hloop rfl
  | loop hpc h => exact h.ledger hpc hin hshort hs
  | callback hloop h => exact h.ledger hloop hs
  | _ => exact hs

theorem run_ledger {tr : List (Sys × Act)} (hrun : (bridge cfg).Run tr s)
    (hok : Machine.Meets ShortPbufs tr) : s.InLedger p (dropped p tr) := by
  induction hrun with
  | start =>
      exact ⟨fun _ _ => rfl, fun _ => ⟨rfl, rfl, rfl⟩, fun hp => absurd hp.1 (Nat.not_lt_zero p)⟩
  | step hrun hstep ih =>
      obtain ⟨hfront, _⟩ := Machine.meets_snoc.mp hok
      have hin := reachable_inOrder hrun.reachable
      have hafter := (step_cases hin hstep).ledger hin (run_short hrun hfront) (ih hfront)
      simpa [dropped] using hafter

theorem posted_eq_zero_iff {entries : List RecvedEntry} (hpos : ∀ r ∈ entries, 0 < r.len) :
    posted p entries = 0 ↔ ∀ r ∈ entries, r.pcb ≠ p := by
  induction entries with
  | nil => simp
  | cons r rest ih =>
      obtain ⟨hr, hrest⟩ := List.forall_mem_cons.mp hpos
      rw [posted_cons, List.forall_mem_cons, ← ih hrest, Nat.add_eq_zero_iff]
      by_cases hrp : r.pcb = p
      · rw [if_pos hrp]
        exact iff_of_false (fun h => Nat.ne_of_gt hr h.1) (fun h => h.1 hrp)
      · simp [hrp]

theorem drops_eq_zero_iff {a : Act} (hshort : s.InShort) : s.drops p a = 0 ↔ CreditsOpen p s a := by
  cases a with
  | loop o =>
      cases hloop : s.loop with
      | credit r =>
          have hr := (hshort.entries r (by simp [hloop, LoopPc.crediting])).1
          simp only [Sys.drops, hloop, CreditsOpen]
          by_cases hdrop : r.pcb = p ∧ (s.pcbs p).err = true
          · rw [if_pos hdrop]
            refine iff_of_false (Nat.ne_of_gt hr) ?_
            intro hopen
            have herr := hopen r rfl hdrop.1
            rw [hdrop.2] at herr
            cases herr
          · rw [if_neg hdrop]
            refine iff_of_true rfl ?_
            rintro _ ⟨⟩ hrp
            by_contra herr
            exact hdrop ⟨hrp, by simpa using herr⟩
      | _ => simp [Sys.drops, hloop, CreditsOpen]
  | _ => exact iff_of_true rfl trivial

/-- No credit was dropped, exactly if `err` was never set when the loop took one. -/
theorem dropped_eq_zero_iff {tr : List (Sys × Act)} (hrun : (bridge cfg).Run tr s)
    (hok : Machine.Meets ShortPbufs tr) :
    dropped p tr = 0 ↔ Machine.Meets (CreditsOpen p) tr := by
  induction hrun with
  | start => exact iff_of_true rfl (Machine.meets_nil _)
  | @step tr s t a hrun hstep ih =>
      obtain ⟨hfront, _⟩ := Machine.meets_snoc.mp hok
      have hsum : dropped p (tr ++ [(s, a)]) = dropped p tr + s.drops p a := by simp [dropped]
      rw [hsum, Nat.add_eq_zero_iff, ih hfront, Machine.meets_snoc,
        drops_eq_zero_iff (run_short hrun hfront)]

/-- When the loop is to execute `tcp_close` for a PCB, all that its Reads returned has been
credited, exactly if the loop took every credit of it before, and each while `err` was not
set. -/
theorem run_credited_iff {tr : List (Sys × Act)} {rest : List PcbId}
    (hrun : (bridge cfg).Run tr s) (hshort : Machine.Meets ShortPbufs tr)
    (hloop : s.loop = .select) (hclose : s.closeQueue.buf = p :: rest)
    (htype : (s.pcbs p).type = .tcp) :
    s.Credited p ↔ Machine.Meets (CreditsOpen p) tr ∧ ∀ r ∈ s.recvedQueue.buf, r.pcb ≠ p := by
  have hin := reachable_inOrder hrun.reachable
  have hlt : p < s.nextPcb := hin.known.closes p (by rw [hclose]; exact List.mem_cons_self)
  have hpos : ∀ r ∈ s.recvedQueue.buf, 0 < r.len := fun r hr =>
    ((run_short hrun hshort).entries r (List.mem_append_right _ hr)).1
  have hbalance := (run_ledger hrun hshort).balance ⟨hlt, htype⟩
  rw [hloop] at hbalance
  rw [← dropped_eq_zero_iff hrun hshort, ← posted_eq_zero_iff hpos]
  simp only [LoopPc.crediting, List.nil_append] at hbalance
  rw [Sys.Credited]
  omega

/-- `Read` returns, its credit is taken, and then the PCB is closed. -/
theorem run_credited_close : ∃ tr s, (bridge Schedule.config).Run tr s ∧ s.loop = .select ∧
    s.closeQueue.buf = [0] ∧ .readOk 0 0 [9] ∈ s.trace ∧ s.Credited 0 := by
  obtain ⟨tr, s, hrun, hmeets, htest⟩ := Machine.exists_run_of_exec (bridge Schedule.config)
    (fun s a => match a with
      | .callback cb _ => (cb.payload.getD []).length < 2 ^ 16
      | .loop _ => (s.pcbs 0).err = false
      | _ => true)
    (Schedule.receive ++ [.loop Schedule.fine, .call 0 (.read 0 1518)] ++
      List.replicate 5 (.go 0) ++
        [.take .recved Schedule.fine, .loop Schedule.fine, .call 0 (.close 0)] ++
          List.replicate 7 (.go 0))
    (fun s => s.loop = .select ∧ s.closeQueue.buf = [0] ∧ (s.pcbs 0).type = .tcp ∧
      s.recvedQueue.buf = [] ∧ .readOk 0 0 [9] ∈ s.trace) (by decide)
  obtain ⟨hloop, hclose, htype, hempty, hread⟩ := of_decide_eq_true htest
  have hshort : Machine.Meets ShortPbufs tr := by
    refine hmeets.mono ?_
    intro s a hok
    cases a with
    | callback cb o => exact Callback.short (by simpa using hok)
    | _ => trivial
  have hopen : Machine.Meets (CreditsOpen 0) tr := by
    refine hmeets.mono ?_
    intro s a hok
    cases a with
    | loop o =>
        intro _ _ _
        exact of_decide_eq_true hok
    | _ => trivial
  refine ⟨tr, s, hrun, hloop, hclose, hread, ?_⟩
  exact (run_credited_iff hrun hshort hloop hclose htype).mpr ⟨hopen, by rw [hempty]; exact nofun⟩

/-- `Close` is called after `Read` returned, and the loop turns to `closeQueue` first. -/
theorem not_credited_close : ∃ tr s, (bridge Schedule.config).Run tr s ∧
    Machine.Meets ShortPbufs tr ∧ s.loop = .select ∧ s.closeQueue.buf = [0] ∧
      (s.pcbs 0).type = .tcp ∧
        (∃ before, .readOk 0 0 [9] ∈ before ∧
          s.trace = before ++ [.closeCalled 0 0] ++ [.errSet 0]) ∧ ¬s.Credited 0 := by
  obtain ⟨tr, s, hrun, hmeets, htest⟩ := Machine.exists_run_of_exec (bridge Schedule.config)
    (fun _ a => match a with
      | .callback cb _ => (cb.payload.getD []).length < 2 ^ 16
      | _ => true)
    (Schedule.receive ++ [.loop Schedule.fine, .call 0 (.read 0 1518)] ++
      List.replicate 5 (.go 0) ++ [.call 0 (.close 0)] ++ List.replicate 7 (.go 0))
    (fun s => s.loop = .select ∧ s.closeQueue.buf = [0] ∧ (s.pcbs 0).type = .tcp ∧
      .readOk 0 0 [9] ∈ s.trace.dropLast.dropLast ∧
      s.trace = s.trace.dropLast.dropLast ++ [.closeCalled 0 0] ++ [.errSet 0] ∧
      credited (s.pcbs 0).conn s.trace = 0 ∧ returned 0 s.trace = 1) (by decide)
  obtain ⟨hloop, hclose, htype, hread, htrace, hcredited, hreturned⟩ := of_decide_eq_true htest
  refine ⟨tr, s, hrun, hmeets.mono ?_, hloop, hclose, htype, ⟨_, hread, htrace⟩, ?_⟩
  · intro s a hok
    cases a with
    | callback cb o => exact Callback.short (by simpa using hok)
    | _ => trivial
  · rw [Sys.Credited, hcredited, hreturned]
    exact nofun

end LwipCs
