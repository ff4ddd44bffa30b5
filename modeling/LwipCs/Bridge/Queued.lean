import LwipCs.Bridge.Panics
import LwipCs.Bridge.Reader

/-!
# Queued and returned

What the receive handler has queued on a PCB with one reader has been returned by
`Read`, is in the hands of the reader, or is in `recvQueued`.
-/

namespace LwipCs

open Interleave

/-- The chunks `Read` returned on `p`. -/
def Event.readOn (p : PcbId) : Event → Option Bytes
  | .readOk _ q data => if q = p then some data else none
  | _ => none

/-- The chunks queued on `p`. -/
def Event.queuedOn (p : PcbId) : Event → Option Bytes
  | .queued q data => if q = p then some data else none
  | _ => none

/-- The chunk `Read` has taken from the channel of `p` and not returned yet. -/
def Thread.received (p : PcbId) : Thread → List Bytes
  | .read q _ (.credit data) => if q = p then [data] else []
  | _ => []

/-- The chunk the handler is about to queue on `p`. -/
def LoopPc.pushing (p : PcbId) : LoopPc → List Bytes
  | .push q data _ _ => if q = p then [data] else []
  | _ => []

/-- What was queued has been returned, is in the hands of the reader, or is in the
channel; a panic may lose the chunk in between. -/
structure Chunks (p : PcbId) (c : Chan Bytes) (th : Thread) (pushing : List Bytes)
    (trace : List Event) (panic : Option Panic) : Prop where
  nonempty : ∀ data ∈ c.buf, data ≠ []
  pushing : ∀ data ∈ pushing, data ≠ []
  queued : panic = none → select (Event.queuedOn p) trace =
    select (Event.readOn p) trace ++ th.received p ++ c.buf
  returned : select (Event.readOn p) trace <+: select (Event.queuedOn p) trace
  /-- after a receive of nothing the channel stays closed and empty -/
  drained : ∀ len, th = .read p len .errRet → c.closed = true ∧ c.buf = []

/-- `Chunks` of a state of the system. -/
abbrev Sys.InChunks (s : Sys) (p : PcbId) (r : Tid) : Prop :=
  Chunks p (s.chans (.own p)) (s.threads r) (s.loop.pushing p) s.trace s.panic

namespace Chunks

variable {p : PcbId} {c c' : Chan Bytes} {th th' : Thread} {pushing pushing' : List Bytes}
variable {trace : List Event} {panic : Option Panic} {ev : Event}

theorem emit (h : Chunks p c th pushing trace panic) (hqueued : ev.queuedOn p = none := by rfl)
    (hread : ev.readOn p = none := by rfl) : Chunks p c th pushing (trace ++ [ev]) panic := by
  have hq : select (Event.queuedOn p) (trace ++ [ev]) = select (Event.queuedOn p) trace := by
    rw [select_snoc, hqueued, Option.toList_none, List.append_nil]
  have hr : select (Event.readOn p) (trace ++ [ev]) = select (Event.readOn p) trace := by
    rw [select_snoc, hread, Option.toList_none, List.append_nil]
  refine { h with queued := ?_, returned := ?_ }
  · rw [hq, hr]
    exact h.queued
  · rw [hq, hr]
    exact h.returned

/-- `if Event != nil { Event.… }` -/
theorem notify (event : Bool) (h : Chunks p c th pushing trace panic)
    (hqueued : ev.queuedOn p = none := by rfl) (hread : ev.readOn p = none := by rfl) :
    Chunks p c th pushing (trace ++ if event then [ev] else []) panic :=
  snoc_if (P := fun tr => Chunks p c th pushing tr panic) event h (h.emit hqueued hread)

theorem crash (h : Chunks p c th pushing trace panic) {why : Panic} :
    Chunks p c th pushing trace (some why) :=
  { h with queued := nofun }

theorem goto (h : Chunks p c th pushing trace panic)
    (hpushing : ∀ data ∈ pushing', data ≠ [] := by nofun) :
    Chunks p c th pushing' trace panic :=
  { h with pushing := hpushing }

/-- A goroutine that has no chunk in its hands before and after its step. -/
theorem setThread {threads : Tid → Thread} {r t : Tid}
    (h : Chunks p c (threads r) pushing trace panic) (hrec : (threads t).received p = [])
    (hrec' : th'.received p = [] := by rfl) (hpc : ∀ len, th' ≠ .read p len .errRet := by nofun) :
    Chunks p c (Function.update threads t th' r) pushing trace panic := by
  by_cases hrt : r = t
  · subst hrt
    rw [Function.update_self]
    refine { h with queued := ?_, drained := ?_ }
    · rw [hrec', ← hrec]
      exact h.queued
    · intro len hth
      exact absurd hth (hpc len)
  · rwa [Function.update_of_ne hrt]

/-- The reader takes a chunk. -/
theorem take (h : Chunks p c th pushing trace panic) {data : Bytes} {len : Nat}
    (hrec : th.received p = []) (hbuf : c.buf = data :: c'.buf) :
    Chunks p c' (.read p len (.credit data)) pushing trace panic where
  nonempty x hx := h.nonempty x (by rw [hbuf]; exact List.mem_cons_of_mem _ hx)
  pushing := h.pushing
  queued hpanic := by
    rw [h.queued hpanic, hrec, hbuf, Thread.received, if_pos rfl]
    simp
  returned := h.returned
  drained := nofun

/-- `Read` returns the chunk. -/
theorem ret (h : Chunks p c th pushing trace panic) (hpanic : panic = none) {t : Tid}
    {data : Bytes} (hrec : th.received p = [data]) :
    Chunks p c .idle pushing (trace ++ [.readOk t p data]) panic := by
  have hq : select (Event.queuedOn p) (trace ++ [.readOk t p data]) =
      select (Event.queuedOn p) trace := by
    rw [select_snoc]
    exact List.append_nil _
  have hr : select (Event.readOn p) (trace ++ [.readOk t p data]) =
      select (Event.readOn p) trace ++ [data] := by
    rw [select_snoc, Event.readOn, if_pos rfl]
    rfl
  have hall := h.queued hpanic
  rw [hrec] at hall
  refine ⟨h.nonempty, h.pushing, ?_, ?_, nofun⟩
  · intro _
    rw [hq, hr, hall]
    simp [Thread.received]
  · rw [hq, hr, hall]
    exact List.prefix_append _ _

/-- The handler queues its chunk. -/
theorem push {data : Bytes} (h : Chunks p c th [data] trace panic)
    (hsend : c.send data = .done c') :
    Chunks p c' th [] (trace ++ [.queued p data]) panic := by
  obtain ⟨hopen, _, hbuf, _, _⟩ := Chan.send_done hsend
  have hq : select (Event.queuedOn p) (trace ++ [.queued p data]) =
      select (Event.queuedOn p) trace ++ [data] := by
    rw [select_snoc, Event.queuedOn, if_pos rfl]
    rfl
  have hr : select (Event.readOn p) (trace ++ [.queued p data]) =
      select (Event.readOn p) trace := by
    rw [select_snoc]
    exact List.append_nil _
  refine ⟨?_, nofun, ?_, ?_, ?_⟩
  · intro x hx
    rw [hbuf] at hx
    rcases List.mem_append.mp hx with hx | hx
    · exact h.nonempty x hx
    · exact h.pushing x hx
  · intro hpanic
    rw [hq, hr, h.queued hpanic, hbuf]
    simp
  · rw [hq, hr]
    exact h.returned.trans (List.prefix_append _ _)
  · intro len hth
    rw [(h.drained len hth).1] at hopen
    cases hopen

/-- The reader finds the channel closed and empty. -/
theorem drain (h : Chunks p c th pushing trace panic) {len : Nat} (hrec : th.received p = [])
    (hclosed : c.closed = true) (hempty : c.buf = []) :
    Chunks p c (.read p len .errRet) pushing trace panic := by
  refine { h with queued := ?_, drained := fun _ _ => ⟨hclosed, hempty⟩ }
  have hall := h.queued
  rwa [hrec] at hall

/-- The buffer of the reader is too small, and the process ends. -/
theorem drop (h : Chunks p c th pushing trace panic) {data : Bytes} {why : Panic}
    (hbuf : c.buf = data :: c'.buf) :
    Chunks p c' th pushing trace (some why) := by
  refine ⟨?_, h.pushing, nofun, h.returned, ?_⟩
  · intro x hx
    exact h.nonempty x (by rw [hbuf]; exact List.mem_cons_of_mem _ hx)
  · intro len hth
    have hempty := (h.drained len hth).2
    rw [hbuf] at hempty
    cases hempty

theorem close (h : Chunks p c th pushing trace panic) (hclose : c.close = .done c') :
    Chunks p c' th pushing trace panic := by
  obtain ⟨hopen, hbuf, _, hclosed⟩ := Chan.close_done hclose
  refine { h with nonempty := ?_, queued := ?_, drained := ?_ }
  · rw [hbuf]
    exact h.nonempty
  · rw [hbuf]
    exact h.queued
  · intro len hth
    rw [hbuf]
    exact ⟨hclosed, (h.drained len hth).2⟩

/-- Another channel changes. -/
theorem setChan {chans : RecvChan → Chan Bytes} {x : RecvChan} {ch : Chan Bytes}
    (h : Chunks p (chans (.own p)) th pushing trace panic) (hx : x ≠ .own p) :
    Chunks p (Function.update chans x ch (.own p)) th pushing trace panic := by
  rwa [Function.update_of_ne hx.symm]

/-- The handler of some PCB queues its chunk. -/
theorem queue {chans : RecvChan → Chan Bytes} {q : PcbId} {data : Bytes} {ctx : PushCtx}
    {x : RecvChan} {ch : Chan Bytes}
    (h : Chunks p (chans (.own p)) th (LoopPc.pushing p (.push q data ctx (some x))) trace panic)
    (hfeeds : x = .own p ↔ q = p) (hsend : (chans x).send data = .done ch) :
    Chunks p (Function.update chans x ch (.own p)) th [] (trace ++ [.queued q data]) panic := by
  by_cases hq : q = p
  · obtain rfl := hfeeds.mpr hq
    subst hq
    rw [Function.update_self]
    rw [LoopPc.pushing, if_pos rfl] at h
    exact h.push hsend
  · have hother : Event.queuedOn p (.queued q data) = none := if_neg hq
    exact .goto (.emit (h.setChan fun hx => hq (hfeeds.mp hx)) hother)

end Chunks

variable {cfg : Config} {s t : Sys} {o : Outcomes} {p : PcbId} {r : Tid}

theorem ReadStep.inChunks {th : Tid} {q : PcbId} {len : Nat} {pc : ReadPc}
    (hth : s.threads th = .read q len pc) (h : ReadStep s th q len pc t) (hpanic : s.panic = none)
    (halone : s.ReadAlone p r) (hs : s.InChunks p r) : t.InChunks p r := by
  have hok : (Thread.read q len pc).ReadBy p r th := hth ▸ halone.threads th
  have hrec : (Thread.read q len pc).received p = (s.threads th).received p := by rw [hth]
  cases h with
  | intercepted _ => exact hs.crash
  | enter _ => exact hs.setThread hrec.symm
  | closed _ => exact .emit (hs.setThread hrec.symm)
  | isOpen _ => exact hs.setThread hrec.symm
  | load => exact hs.setThread hrec.symm
  | @nothing c ch chunk hrecv hnil =>
      obtain ⟨hreader, hown⟩ := hok
      by_cases hq : q = p
      · obtain rfl := hreader hq
        obtain rfl := hown.mpr hq
        subst hq
        rcases Chan.recv_done hrecv with ⟨x, hx, hbuf, _, _⟩ | ⟨_, rfl, hempty, hclosed⟩
        · have hx : x = [] := by
            subst hx
            simpa using hnil
          exact absurd hx (hs.nonempty x (by rw [hbuf]; exact List.mem_cons_self))
        · simp only [Sys.InChunks, Function.update_self]
          exact hs.drain hrec.symm hclosed hempty
      · refine .setThread (.setChan hs fun h => hq (hown.mp h)) hrec.symm rfl ?_
        rintro _ ⟨⟩
        exact hq rfl
  | @tooSmall c ch data hrecv hlen =>
      obtain ⟨hreader, hown⟩ := hok
      by_cases hq : q = p
      · obtain rfl := hown.mpr hq
        simp only [Sys.InChunks, Function.update_self]
        exact hs.drop (Chan.recv_some hrecv).1
      · exact .crash (.setChan hs fun h => hq (hown.mp h))
  | @chunk c ch data hrecv hdata hlen htype =>
      obtain ⟨hreader, hown⟩ := hok
      by_cases hq : q = p
      · obtain rfl := hreader hq
        obtain rfl := hown.mpr hq
        subst hq
        simp only [Sys.InChunks, Function.update_self]
        exact hs.take hrec.symm (Chan.recv_some hrecv).1
      · exact .setThread (.setChan hs fun h => hq (hown.mp h)) hrec.symm (if_neg hq)
  | @datagram c ch data hrecv hdata hlen htype =>
      obtain ⟨hreader, hown⟩ := hok
      by_cases hq : q = p
      · obtain rfl := hreader hq
        obtain rfl := hown.mpr hq
        subst hq
        simp only [Sys.InChunks, Function.update_self]
        have htaken : Chunks q ch (.read q len (.credit data)) (s.loop.pushing q) s.trace s.panic :=
          hs.take hrec.symm (Chan.recv_some hrecv).1
        exact htaken.ret hpanic (if_pos rfl)
      · have hother : Event.readOn p (.readOk th q data) = none := if_neg hq
        exact .emit (.setThread (.setChan hs fun h => hq (hown.mp h)) hrec.symm) rfl hother
  | errRet _ => exact .emit (hs.setThread hrec.symm)
  | nilRet _ => exact .emit (hs.setThread hrec.symm)
  | @credit data q' hsend =>
      by_cases hq : q = p
      · obtain rfl := hok hq
        subst hq
        simp only [Sys.InChunks, Function.update_self]
        exact hs.ret hpanic (hrec.symm.trans (if_pos rfl))
      · have hother : Event.readOn p (.readOk th q data) = none := if_neg hq
        exact .emit (hs.setThread (hrec.symm.trans (if_neg hq))) rfl hother

theorem CloseStep.inChunks {who : Actor} {q : PcbId} {pc : ClosePc} {next : Option ClosePc}
    (h : CloseStep s who q pc t next) (hs : s.InChunks p r) : t.InChunks p r := by
  cases h with
  | setErr => exact hs.emit
  | closeRecv _ hclose =>
      by_cases hq : (s.pcbs q).recvQueued = .own p
      · rw [hq] at hclose ⊢
        simp only [Sys.InChunks, Function.update_self]
        exact hs.close hclose
      · exact hs.setChan hq
  | recvTwice _ => exact hs.crash
  | waitTwice _ _ => exact hs.crash
  | _ => exact hs

theorem LoopStep.inChunks {pc : LoopPc} (hpc : s.loop = pc) (h : LoopStep cfg s o pc t)
    (halone : s.ReadAlone p r) (hs : s.InChunks p r) : t.InChunks p r := by
  have hs' : Chunks p (s.chans (.own p)) (s.threads r) (pc.pushing p) s.trace s.panic := hpc ▸ hs
  have hfeeds : pc.FeedsOwn p := hpc ▸ halone.loop
  cases h with
  | creditClosed _ => exact hs'
  | credit _ => exact hs'.emit
  | dropped _ => exact hs'.emit
  | passed _ _ => exact hs'.emit
  | sendEmpty _ => exact hs.crash
  | udpSendEmpty _ => exact hs.crash
  | sendFailed _ _ _ _ _ => exact hs'.emit
  | sendTcp _ _ _ _ _ _ _ => exact .emit hs'.emit
  | sendUdp _ _ _ => exact .emit hs'.emit
  | sendUdpFailed _ _ _ => exact hs'.emit
  | post _ => exact hs'
  | netif => exact hs'.emit
  | netifNone => exact hs'
  | leave => exact hs'
  | target => exact hs'
  | pushClosed _ => exact hs.crash
  | @push q data k c ch hsend => exact .emit (hs'.queue hfeeds hsend)
  | @pushUdp q data src dst old c ch hsend => exact .emit (hs'.queue hfeeds hsend)
  | doneClosed _ => exact hs.crash
  | done _ => exact hs'
  | @close q pc pc' a e k s' hclose =>
      have hclosed := hclose.inChunks hs
      rw [Sys.InChunks, hclose.loopKept.loop, hpc] at hclosed
      exact hclosed
  | closed => exact .emit (.emit (.notify cfg.event hs'))

theorem CallbackStep.inChunks {cb : Callback} (hloop : s.loop = .lwip)
    (h : CallbackStep cfg s o cb t) (hs : s.InChunks p r) : t.InChunks p r := by
  have hs' : Chunks p (s.chans (.own p)) (s.threads r) [] s.trace s.panic := by
    have := hs
    rwa [Sys.InChunks, hloop] at this
  have pushing : ∀ {q : PcbId} {data : Bytes}, data ≠ [] →
      ∀ x ∈ (if q = p then [data] else []), x ≠ [] := by
    intro q data hdata x hx
    split at hx
    · rwa [List.mem_singleton.mp hx]
    · cases hx
  cases h with
  | ignored => exact hs
  | accept _ _ => exact .emit (.notify cfg.event hs.emit)
  | assertion => exact hs.crash
  | recvClosed _ _ _ _ _ _ => exact .emit (.emit hs'.emit)
  | recvEmpty _ _ _ _ _ _ => exact .crash (.emit hs.emit)
  | recv _ _ _ _ _ _ hdata => exact .goto (.emit hs'.emit) (pushing hdata)
  | fin _ _ _ _ _ => exact .emit hs'.emit
  | err _ _ _ _ _ => exact .emit (.emit hs'.emit)
  | sentMore _ _ _ _ _ _ _ => exact .emit hs'.emit
  | sentIdle _ _ _ _ _ _ _ => exact hs'.emit
  | sent _ _ _ _ _ _ _ _ => exact hs'.emit
  | pollMore _ _ _ _ _ _ _ => exact hs'.emit
  | udpEmpty => exact hs.crash
  | udpKnown _ hdata => exact hs'.goto (pushing hdata)
  | udpNew _ hdata => exact .goto (hs'.notify cfg.event) (pushing hdata)

theorem Step.inChunks {a : Act} (h : Step cfg s a t) (hpanic : s.panic = none)
    (halone : s.ReadAlone p r) (hs : s.InChunks p r) : t.InChunks p r := by
  have idle : ∀ {th x}, s.threads th = x → x.received p = [] → (s.threads th).received p = [] :=
    fun hth hx => hth ▸ hx
  have select : ∀ {pc : LoopPc}, s.loop = .select → pc.pushing p = [] →
      Chunks p (s.chans (.own p)) (s.threads r) (pc.pushing p) s.trace s.panic := by
    intro pc hloop hpc
    have := hs
    rw [Sys.InChunks, hloop] at this
    rwa [hpc]
  cases h with
  | callRead hidle _ => exact hs.setThread (idle hidle rfl)
  | callWrite hidle _ => exact hs.setThread (idle hidle rfl)
  | callClose hidle _ => exact .emit (hs.setThread (idle hidle rfl))
  | callIntercept hidle _ => exact hs.setThread (idle hidle rfl)
  | read hth h => exact h.inChunks hth hpanic halone hs
  | write hth h =>
      have hrec := idle hth rfl
      cases h with
      | empty _ => exact .emit (hs.setThread hrec)
      | lock _ => exact .emit (hs.setThread hrec)
      | enqueue _ => exact .emit (hs.setThread hrec)
      | wait _ => exact .emit (hs.setThread hrec)
      | post _ => exact .emit (hs.setThread hrec)
      | ret => exact .emit (hs.setThread hrec)
      | _ => exact hs.setThread hrec
  | close hth h =>
      have hrec := idle hth rfl
      refine .setThread (h.inChunks hs) ?_
      cases h <;> exact hrec
  | closed hth => exact hs.setThread (idle hth rfl)
  | closePost hth _ => exact hs.setThread (idle hth rfl)
  | @intercept th q c pc t hth h =>
      have hrec := idle hth rfl
      have hq : q ≠ p := by
        have := halone.threads th
        rwa [hth] at this
      cases h with
      | twice _ => exact .crash (hs.setThread hrec)
      | closeOld _ => exact .setThread (hs.setChan fun h => hq ((halone.own q).mp h)) hrec
      | closedOld _ => exact hs.crash
      | _ => exact hs.setThread hrec
  | frame _ => exact hs.emit
  | @userRecv c chunk ch hrecv =>
      have hother : Chunks p (Function.update s.chans (.user c) ch (.own p)) (s.threads r)
          (s.loop.pushing p) s.trace s.panic := hs.setChan nofun
      exact hother
  | takeRecved hloop _ => exact select hloop rfl
  | takeClose _ _ _ => exact hs.emit
  | takeCloseUdp _ _ _ => exact hs.emit
  | takeSend hloop _ => exact select hloop rfl
  | takeInput hloop _ => exact select hloop rfl
  | loop hpc h => exact h.inChunks hpc halone hs
  | callback hloop h => exact h.inChunks hloop hs
  | _ => exact hs

theorem loopStep_of_step (h : step cfg s (.loop o) = some t) : s.loopStep cfg o = some t := by
  simpa [step, step_running h] using h

theorem run_inChunks {tr : List (Sys × Act)} (hrun : (bridge cfg).Run tr s)
    (hby : Machine.Meets (ReadBy p r) tr) : s.InChunks p r := by
  have hboth : s.ReadAlone p r ∧ s.InChunks p r := by
    refine hrun.invariant_under (I := fun s => s.ReadAlone p r ∧ s.InChunks p r) hby
      reachable_inOrder ⟨run_readAlone .start (Machine.meets_nil _), ?_⟩ ?_
    · exact ⟨nofun, nofun, fun _ => rfl, List.nil_prefix, nofun⟩
    · rintro s a t hs _ ⟨halone, hchunks⟩ hby hstep
      have hcases := step_cases hs hstep
      exact ⟨hcases.readAlone halone hby, hcases.inChunks (step_running hstep) halone hchunks⟩
  exact hboth.2

end LwipCs
