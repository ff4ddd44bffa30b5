import LwipCs.Bridge.Landed
import LwipCs.Bridge.Panics
import LwipCs.Bridge.UdpTable

/-!
# What the reader of a UDP flow gets

The datagrams of a flow that is never closed, read by one goroutine, against those that `Read`
returns. `go_udp_recv_h` takes the address of the first byte of a datagram, so an empty one ends
the process.
-/

namespace LwipCs

open Interleave

/-- The datagram of the flow that arrives in the step, from when `p` is made for it. -/
def onFlow (cfg : Config) (p : PcbId) (f : Flow) (s : Sys) : Act → Option Bytes
  | .callback (.udp src dst (some data)) _ =>
      if src = f.remoteEnd ∧ dst = f.localEnd ∧ (p < s.nextPcb ∨ s.Finds cfg p src) then some data
      else none
  | _ => none

/-- The datagrams of the flow that have arrived. -/
def arrived (cfg : Config) (p : PcbId) (f : Flow) (tr : List (Sys × Act)) : List Bytes :=
  tr.filterMap fun x => onFlow cfg p f x.1 x.2

/-- Every datagram of the flow is returned by a `Read` of its own, or is queued or about to be,
in the order of arrival. None ends the process, and no `Read` returns without one. -/
structure ReadsFlow (cfg : Config) (p : PcbId) (f : Flow) (tr : List (Sys × Act)) (s : Sys) :
    Prop where
  handled : ∀ x, tr.getLast? = some x → (onFlow cfg p f x.1 x.2).isSome → s.panic = none
  sent : s.panic = some .sendOnClosed → s.loop.pushing p = []
  read : s.panic = none → arrived cfg p f tr =
    select (Event.readOn p) s.trace ++ (s.chans (.own p)).buf ++ s.loop.pushing p
  errors : ∀ t, .readErr t p ∉ s.trace ∧ .readNil t p ∉ s.trace

/-- The datagram of the flow, if one arrives, is what the handler takes for `p`. -/
def TakesFlow (cfg : Config) (p : PcbId) (f : Flow) (s : Sys) (a : Act) : Prop :=
  onFlow cfg p f s a = handed cfg p s a

instance (cfg : Config) (p : PcbId) (f : Flow) (s : Sys) (a : Act) :
    Decidable (TakesFlow cfg p f s a) :=
  inferInstanceAs (Decidable (_ = _))

/-! ### The flow stays open -/

/-- The channel of `p` is open, and no `Read` of `p` has failed. -/
structure StillOpen (p : PcbId) (c : Chan Bytes) (err : Bool) (trace : List Event) : Prop where
  chan : c.closed = false
  err : err = false
  errors : ∀ t, .readErr t p ∉ trace ∧ .readNil t p ∉ trace

/-- `StillOpen` of a state of the system. -/
abbrev Sys.IsOpen (s : Sys) (p : PcbId) : Prop :=
  StillOpen p (s.chans (.own p)) (s.pcbs p).err s.trace

/-- A `Read` of `p` that returns no chunk. -/
def Event.failsOn (p : PcbId) : Event → Bool
  | .readErr _ q | .readNil _ q => q = p
  | _ => false

namespace StillOpen

variable {p : PcbId} {c : Chan Bytes} {err : Bool} {trace : List Event} {ev : Event}

theorem emit (h : StillOpen p c err trace) (hev : ev.failsOn p = false) :
    StillOpen p c err (trace ++ [ev]) := by
  refine { h with errors := ?_ }
  intro t
  constructor
  · intro hin
    rcases List.mem_append.mp hin with hin | hin
    · exact (h.errors t).1 hin
    · rw [← List.mem_singleton.mp hin] at hev
      simp [Event.failsOn] at hev
  · intro hin
    rcases List.mem_append.mp hin with hin | hin
    · exact (h.errors t).2 hin
    · rw [← List.mem_singleton.mp hin] at hev
      simp [Event.failsOn] at hev

/-- `if Event != nil { Event.… }` -/
theorem notify (event : Bool) (h : StillOpen p c err trace) (hev : ev.failsOn p = false) :
    StillOpen p c err (trace ++ if event then [ev] else []) :=
  snoc_if (P := StillOpen p c err) event h (h.emit hev)

theorem setChan {chans : RecvChan → Chan Bytes} {x : RecvChan} {ch : Chan Bytes}
    (h : StillOpen p (chans (.own p)) err trace) (hx : x = .own p → ch.closed = (chans x).closed) :
    StillOpen p (Function.update chans x ch (.own p)) err trace := by
  refine { h with chan := ?_ }
  by_cases hown : x = .own p
  · rw [hown, Function.update_self, hx hown, hown]
    exact h.chan
  · rw [Function.update_of_ne (Ne.symm hown)]
    exact h.chan

theorem setPcb {pcbs : PcbId → PCB} {q : PcbId} {x : PCB}
    (h : StillOpen p c (pcbs p).err trace) (hx : q = p → x.err = (pcbs p).err) :
    StillOpen p c (Function.update pcbs q x p).err trace := by
  refine { h with err := ?_ }
  by_cases hq : q = p
  · rw [← hq, Function.update_self, hx hq]
    exact h.err
  · rw [Function.update_of_ne (Ne.symm hq)]
    exact h.err

end StillOpen

variable {cfg : Config} {s t : Sys} {o : Outcomes} {a : Act} {p : PcbId} {r : Tid}

theorem ReadStep.stillOpen {th : Tid} {q : PcbId} {len : Nat} {pc : ReadPc}
    (hth : s.threads th = .read q len pc) (h : ReadStep s th q len pc t)
    (halone : s.ReadAlone p r) (hchunks : s.InChunks p r) (hs : s.IsOpen p) : t.IsOpen p := by
  have taken : ∀ {x chunk ch}, (s.chans x).recv = .done (chunk, ch) →
      StillOpen p (Function.update s.chans x ch (.own p)) (s.pcbs p).err s.trace :=
    fun hrecv => hs.setChan fun _ => Chan.closed_of_recv hrecv
  have failed : (s.pcbs q).err = true → StillOpen p (s.chans (.own p)) (s.pcbs p).err
      (s.trace ++ [.readErr th q]) := by
    intro herr
    refine hs.emit (decide_eq_false ?_)
    rintro rfl
    rw [hs.err] at herr
    cases herr
  cases h with
  | closed herr => exact failed herr
  | errRet herr => exact failed herr
  | nilRet _ =>
      refine hs.emit (decide_eq_false ?_)
      rintro rfl
      have hreader : q = q → th = r := by
        have hby := halone.threads th
        rwa [hth] at hby
      obtain rfl := hreader rfl
      have hclosed := (hchunks.drained len hth).1
      rw [hs.chan] at hclosed
      cases hclosed
  | nothing hrecv _ => exact taken hrecv
  | tooSmall hrecv _ => exact taken hrecv
  | chunk hrecv _ _ _ => exact taken hrecv
  | datagram hrecv _ _ _ => exact (taken hrecv).emit rfl
  | credit _ => exact hs.emit rfl
  | _ => exact hs

theorem CloseStep.stillOpen {who : Actor} {q : PcbId} {pc : ClosePc} {next : Option ClosePc}
    (h : CloseStep s who q pc t next) (hq : q ≠ p) (halone : s.ReadAlone p r)
    (hs : s.IsOpen p) : t.IsOpen p := by
  cases h with
  | lock _ => exact hs.setPcb fun h => absurd h hq
  | setErr => exact .emit (hs.setPcb fun h => absurd h hq) rfl
  | closeRecv _ _ => exact hs.setChan fun h => absurd ((halone.own q).mp h) hq
  | closeWait _ _ => exact hs.setPcb fun h => absurd h hq
  | unlock => exact hs.setPcb fun h => absurd h hq
  | _ => exact hs

theorem InterceptStep.stillOpen {th : Tid} {q : PcbId} {c : Nat} {pc : InterPc}
    (h : InterceptStep s th q c pc t) (hq : q ≠ p) (halone : s.ReadAlone p r)
    (hs : s.IsOpen p) : t.IsOpen p := by
  cases h with
  | lock _ => exact hs.setPcb fun h => absurd h hq
  | twice _ => exact hs.setPcb fun h => absurd h hq
  | set => exact hs.setPcb fun h => absurd h hq
  | closeOld _ => exact hs.setChan fun h => absurd ((halone.own q).mp h) hq
  | swap => exact hs.setPcb fun h => absurd h hq
  | unlock => exact hs.setPcb fun h => absurd h hq
  | _ => exact hs

theorem LoopStep.stillOpen {pc : LoopPc} (hpc : s.loop = pc) (h : LoopStep cfg s o pc t)
    (hin : s.InUse) (htype : p < s.nextPcb → (s.pcbs p).type = .udp)
    (halone : s.ReadAlone p r) (hs : s.IsOpen p) : t.IsOpen p := by
  have tcp : ∀ {q}, Made s.nextPcb s.pcbs .tcp q → q ≠ p := by
    rintro q ⟨hlt, hq⟩ rfl
    rw [htype hlt] at hq
    cases hq
  have hloop : pc.Ok s.nextPcb s.pcbs := hpc ▸ hin.loop
  cases h with
  | credit _ => exact hs.emit rfl
  | dropped _ => exact hs.emit rfl
  | passed _ _ => exact hs.emit rfl
  | sendFailed _ _ _ _ _ =>
      refine .emit (hs.setPcb ?_) rfl
      rintro rfl
      rfl
  | sendTcp _ _ _ _ _ _ _ =>
      refine .emit (.emit (hs.setPcb ?_) rfl) rfl
      rintro rfl
      rfl
  | sendUdp _ _ _ => exact .emit (hs.emit rfl) rfl
  | sendUdpFailed _ _ _ => exact hs.emit rfl
  | netif => exact hs.emit rfl
  | push hsend => exact .emit (.emit (hs.setChan fun _ => Chan.closed_of_send hsend) rfl) rfl
  | pushUdp hsend => exact .emit (.emit (hs.setChan fun _ => Chan.closed_of_send hsend) rfl) rfl
  | done _ =>
      refine hs.setPcb ?_
      rintro rfl
      rfl
  | close hclose => exact hclose.stillOpen (tcp hloop) halone hs
  | closed =>
      refine .emit (.emit (.notify cfg.event (hs.setPcb ?_) rfl) rfl) rfl
      rintro rfl
      rfl
  | _ => exact hs

theorem CallbackStep.stillOpen {cb : Callback} (h : CallbackStep cfg s o cb t) (hs : s.IsOpen p) :
    t.IsOpen p := by
  have made : ∀ {x : PCB}, x.err = false →
      StillOpen p (s.chans (.own p)) (Function.update s.pcbs s.nextPcb x p).err s.trace := by
    intro x hx
    refine hs.setPcb fun _ => ?_
    rw [hx, hs.err]
  cases h with
  | accept _ _ => exact .emit (.notify cfg.event ((made rfl).emit rfl) rfl) rfl
  | recvClosed _ _ _ _ _ _ => exact .emit (.emit (hs.emit rfl) rfl) rfl
  | recvEmpty _ _ _ _ _ _ => exact .emit (hs.emit rfl) rfl
  | recv _ _ _ _ _ _ _ => exact .emit (hs.emit rfl) rfl
  | fin _ _ _ _ _ => exact .emit (hs.emit rfl) rfl
  | err _ _ _ _ _ => exact .emit (.emit (hs.emit rfl) rfl) rfl
  | sentMore _ _ _ _ _ _ _ => exact .emit (hs.emit rfl) rfl
  | sentIdle _ _ _ _ _ _ _ => exact hs.emit rfl
  | sent _ _ _ _ _ _ _ _ =>
      refine .emit (hs.setPcb ?_) rfl
      rintro rfl
      rfl
  | pollMore _ _ _ _ _ _ _ => exact hs.emit rfl
  | udpNew _ _ => exact .notify cfg.event (made rfl) rfl
  | _ => exact hs

/-- Where nobody calls `Close` or `Intercept` on it, a UDP flow stays open. -/
theorem Step.stillOpen (h : Step cfg s a t) (hin : s.InUse)
    (htype : p < s.nextPcb → (s.pcbs p).type = .udp) (halone : s.ReadAlone p r)
    (hchunks : s.InChunks p r) (hs : s.IsOpen p) : t.IsOpen p := by
  cases h with
  | callClose _ _ => exact hs.emit rfl
  | read hth h => exact h.stillOpen hth halone hchunks hs
  | write _ h =>
      cases h with
      | empty _ => exact hs.emit rfl
      | lock _ =>
          refine .emit (hs.setPcb ?_) rfl
          rintro rfl
          rfl
      | enqueue _ => exact hs.emit rfl
      | wait _ =>
          refine .emit (hs.setPcb ?_) rfl
          rintro rfl
          rfl
      | unlock =>
          refine hs.setPcb ?_
          rintro rfl
          rfl
      | post _ => exact hs.emit rfl
      | ret => exact hs.emit rfl
      | _ => exact hs
  | @close th q pc pc' s' hth h =>
      have hq := halone.threads th
      rw [hth] at hq
      exact h.stillOpen hq halone hs
  | @closed th q hth =>
      refine hs.setPcb ?_
      rintro rfl
      rfl
  | @intercept th q c pc _ hth h =>
      have hq := halone.threads th
      rw [hth] at hq
      exact h.stillOpen hq halone hs
  | frame _ => exact hs.emit rfl
  | @userRecv c chunk ch hrecv =>
      have hother : StillOpen p (Function.update s.chans (.user c) ch (.own p)) (s.pcbs p).err
          s.trace := hs.setChan nofun
      exact hother
  | takeClose _ _ _ => exact hs.emit rfl
  | takeCloseUdp _ _ _ => exact hs.emit rfl
  | loop hpc h => exact h.stillOpen hpc hin htype halone hs
  | callback _ h => exact h.stillOpen hs
  | _ => exact hs

/-! ### The flow along a run -/

/-- What a run keeps of a UDP flow with one reader. -/
structure Sys.InFlow (s : Sys) (p : PcbId) (r : Tid) (f : Flow) : Prop where
  order : s.InOrder
  alone : s.ReadAlone p r
  chunks : s.InChunks p r
  isOpen : s.IsOpen p
  flow : p < s.nextPcb → (s.pcbs p).toFlow = f

theorem run_stillOpen {tr : List (Sys × Act)} (hrun : (bridge cfg).Run tr s)
    (hok : Machine.Meets (fun s a => ReadBy p r s a ∧
      (p < s.nextPcb → (s.pcbs p).type = .udp)) tr) : s.IsOpen p := by
  have hall : s.ReadAlone p r ∧ s.InChunks p r ∧ s.IsOpen p := by
    refine hrun.invariant_under (I := fun s => s.ReadAlone p r ∧ s.InChunks p r ∧ s.IsOpen p) hok
      reachable_inOrder ⟨run_readAlone .start (Machine.meets_nil _),
        run_inChunks .start (Machine.meets_nil _), ⟨rfl, rfl, fun _ => ⟨nofun, nofun⟩⟩⟩ ?_
    rintro s a t hs _ ⟨halone, hchunks, hopen⟩ ⟨hby, htype⟩ hstep
    have hcases := step_cases hs hstep
    exact ⟨hcases.readAlone halone hby, hcases.inChunks (step_running hstep) halone hchunks,
      hcases.stillOpen hs.known htype halone hchunks hopen⟩
  exact hall.2.2

/-- All along a run that ends with the flow of a UDP PCB. -/
theorem run_inFlow {tr : List (Sys × Act)} (hrun : (bridge cfg).Run tr s)
    (hby : Machine.Meets (ReadBy p r) tr) (hmade : Made s.nextPcb s.pcbs .udp p) :
    Machine.Always (fun u => u.InFlow p r (s.pcbs p).toFlow) tr s := by
  have hflow : ∀ x ∈ tr, p < x.1.nextPcb → (x.1.pcbs p).toFlow = (s.pcbs p).toFlow :=
    fun x hx => (run_flow_eq hrun x hx).2 p
  have hok : Machine.Meets (fun s a => ReadBy p r s a ∧
      (p < s.nextPcb → (s.pcbs p).type = .udp)) tr := by
    intro x hx
    refine ⟨hby x hx, fun hp => ?_⟩
    rw [← hmade.2]
    exact congrArg Flow.type (hflow x hx hp)
  have hknown := hrun.always (J := fun s => s.InOrder ∧ s.ReadAlone p r ∧ s.InChunks p r ∧
    s.IsOpen p) hok fun h hok => ⟨reachable_inOrder h.reachable,
      run_readAlone h (hok.mono fun _ _ h => h.1), run_inChunks h (hok.mono fun _ _ h => h.1),
      run_stillOpen h hok⟩
  constructor
  · intro x hx
    obtain ⟨horder, halone, hchunks, hopen⟩ := hknown.1 x hx
    exact ⟨horder, halone, hchunks, hopen, hflow x hx⟩
  · obtain ⟨horder, halone, hchunks, hopen⟩ := hknown.2
    exact ⟨horder, halone, hchunks, hopen, fun _ => rfl⟩

/-- What has landed on a flow is returned, queued, or about to be queued. -/
theorem Sys.InFlow.landed {f : Flow} (h : s.InFlow p r f) (hudp : f.type = .udp)
    (hrunning : s.panic = none) : s.landed p =
      select (Event.readOn p) s.trace ++ (s.chans (.own p)).buf ++ s.loop.pushing p := by
  have hnone : (s.threads r).received p = [] := by
    have hth := h.order.known.threads r
    cases hr : s.threads r with
    | read q len pc =>
        rw [hr] at hth
        cases pc with
        | credit data =>
            refine if_neg ?_
            rintro rfl
            have htype : (s.pcbs q).type = .udp := by
              rw [← hudp]
              exact congrArg Flow.type (h.flow hth.1)
            cases htype.symm.trans hth.2
        | _ => rfl
    | _ => rfl
  rw [Sys.landed, h.chunks.queued hrunning, hnone, List.append_nil]

/-- A handler that takes a chunk goes on to queue it. -/
theorem Step.running_of_handed (h : Step cfg s a t) (hrunning : s.panic = none)
    (hhanded : (handed cfg p s a).isSome) : t.panic = none := by
  cases hpanic : t.panic with
  | none => rfl
  | some why =>
      cases h.fails hrunning hpanic with
      | @assertion a data err o herr =>
          cases err with
          | ok => exact absurd rfl herr
          | _ => cases hhanded
      | recvEmpty => simp [handed] at hhanded
      | udpEmpty => simp [handed] at hhanded
      | recvTwice hpos _ _ => rcases hpos with ⟨_, rfl, _⟩ | ⟨_, _, _, _, rfl, _⟩ <;> cases hhanded
      | waitTwice hpos _ => rcases hpos with ⟨_, rfl, _⟩ | ⟨_, _, _, _, rfl, _⟩ <;> cases hhanded
      | _ => cases hhanded

/-- The channel of the flow is not the closed one that a handler sends on. -/
theorem Step.pushing_of_sendOnClosed {f : Flow} (h : Step cfg s a t) (hs : s.InFlow p r f)
    (hrunning : s.panic = none) (hpanic : t.panic = some .sendOnClosed) :
    t.loop.pushing p = [] := by
  rw [h.pushing_of_panic hrunning hpanic]
  cases h.fails hrunning hpanic with
  | @pushClosed o q data ctx x hloop hclosed =>
      have hq : q ≠ p := by
        rintro rfl
        have hfeeds : (LoopPc.push q data ctx (some x)).FeedsOwn q := hloop ▸ hs.alone.loop
        rw [hfeeds.mpr rfl, hs.isOpen.chan] at hclosed
        cases hclosed
      rw [hloop, LoopPc.pushing, if_neg hq]
  | doneClosed hloop _ =>
      rw [hloop]
      rfl

theorem toList_inj {x y : Option Bytes} (h : x.toList = y.toList) : x = y := by
  cases x with
  | none => exact (Option.toList_eq_nil_iff.mp h.symm).symm
  | some data => exact (Option.toList_eq_singleton_iff.mp h.symm).symm

theorem arrived_snoc (cfg : Config) (p : PcbId) (f : Flow) (tr : List (Sys × Act)) (s : Sys)
    (a : Act) :
    arrived cfg p f (tr ++ [(s, a)]) = arrived cfg p f tr ++ (onFlow cfg p f s a).toList :=
  select_snoc _ _ _

/-- The reads of a flow go on exactly if the handler takes for `p` what arrives on the flow. -/
theorem readsFlow_step {f : Flow} (hudp : f.type = .udp) {tr : List (Sys × Act)}
    (hs : s.InFlow p r f) (ht : t.InFlow p r f) (hreads : ReadsFlow cfg p f tr s)
    (hstep : (bridge cfg).step s a = some t) :
    ReadsFlow cfg p f (tr ++ [(s, a)]) t ↔ TakesFlow cfg p f s a := by
  have hrunning := step_running hstep
  have hcases := step_cases hs.order hstep
  have hbefore : arrived cfg p f tr = s.landed p := by
    rw [hreads.read hrunning, hs.landed hudp hrunning]
  have hgrows : t.landed p = s.landed p ++ (handed cfg p s a).toList := hcases.landed
  constructor
  · intro h
    cases hpanic : t.panic with
    | none =>
        have hread := h.read hpanic
        rw [arrived_snoc, ← ht.landed hudp hpanic, hgrows, hbefore] at hread
        exact toList_inj (List.append_cancel_left hread)
    | some why =>
        have hflow : onFlow cfg p f s a = none := by
          by_contra hsome
          have hnone := h.handled (s, a) List.getLast?_concat (Option.isSome_iff_ne_none.mpr hsome)
          rw [hpanic] at hnone
          cases hnone
        have hhanded : handed cfg p s a = none := by
          by_contra hsome
          have hnone := hcases.running_of_handed hrunning (Option.isSome_iff_ne_none.mpr hsome)
          rw [hpanic] at hnone
          cases hnone
        exact hflow.trans hhanded.symm
  · intro hok
    refine ⟨?_, fun hpanic => hcases.pushing_of_sendOnClosed hs hrunning hpanic, ?_,
      ht.isOpen.errors⟩
    · intro x hx hsome
      rw [List.getLast?_concat] at hx
      cases hx
      rw [hok] at hsome
      exact hcases.running_of_handed hrunning hsome
    · intro hpanic
      rw [arrived_snoc, ← ht.landed hudp hpanic, hgrows, hbefore, hok]

/-- All along a run the reader of a UDP flow gets its datagrams, exactly if at each arrival
the handler takes the datagram of the flow, and no other, for `p`. -/
theorem run_readsFlow_iff {tr : List (Sys × Act)} (hrun : (bridge cfg).Run tr s)
    (hby : Machine.Meets (ReadBy p r) tr) (hmade : Made s.nextPcb s.pcbs .udp p) :
    Machine.Throughout (ReadsFlow cfg p (s.pcbs p).toFlow) tr s ↔
      Machine.Meets (TakesFlow cfg p (s.pcbs p).toFlow) tr := by
  refine hrun.throughout_iff (run_inFlow hrun hby hmade) ?_ ?_
  · constructor
    · intro x hx
      cases hx
    · intro hpanic
      cases hpanic
    · intro _
      rfl
    · intro u
      exact ⟨List.not_mem_nil, List.not_mem_nil⟩
  · intro tr s a t hs ht hreads hstep
    exact readsFlow_step hmade.2 hs ht hreads hstep

namespace Schedule

/-- The flow that `udpOpen` opens. -/
def udpFlow : Flow := ⟨.udp, 0, 0, .v4 2, 53, .v4 1, 4000, 0⟩

/-- The goroutine 0 reads a datagram from the PCB 0. -/
def readUdp : List Act := [.call 0 (.read 0 1518), .go 0, .go 0, .go 0, .go 0]

/-- An empty datagram of the flow. -/
def udpEmpty : Act := .callback (.udp ⟨.v4 1, 4000⟩ ⟨.v4 2, 53⟩ (some [])) fine

end Schedule

/-- Two datagrams, read in order. -/
theorem run_readsFlow_two : ∃ tr s, (bridge Schedule.config).Run tr s ∧
    (s.pcbs 0).toFlow = Schedule.udpFlow ∧ select (Event.readOn 0) s.trace = [[1], [2]] ∧
      Machine.Throughout (ReadsFlow Schedule.config 0 (s.pcbs 0).toFlow) tr s := by
  obtain ⟨tr, s, hrun, hmeets, htest⟩ := Machine.exists_run_of_exec (bridge Schedule.config)
    (fun s a => decide (ReadBy 0 0 s a ∧ TakesFlow Schedule.config 0 Schedule.udpFlow s a))
    (Schedule.udpOpen ++ Schedule.udpAgain ++ Schedule.readUdp ++ Schedule.readUdp)
    (fun s => 0 < s.nextPcb ∧ (s.pcbs 0).toFlow = Schedule.udpFlow ∧
      select (Event.readOn 0) s.trace = [[1], [2]]) (by decide +kernel)
  obtain ⟨hlt, hflow, hread⟩ := of_decide_eq_true htest
  have hby : Machine.Meets (ReadBy 0 0) tr := hmeets.mono fun _ _ h => (of_decide_eq_true h).1
  have hmade : Made s.nextPcb s.pcbs .udp 0 := ⟨hlt, congrArg Flow.type hflow⟩
  refine ⟨tr, s, hrun, hflow, hread, (run_readsFlow_iff hrun hby hmade).mpr ?_⟩
  rw [hflow]
  exact hmeets.mono fun _ _ h => (of_decide_eq_true h).2

/-- An empty datagram ends the process. -/
theorem not_readsFlow_empty : ∃ tr s, (bridge Schedule.config).Run tr s ∧
    Machine.Meets (ReadBy 0 0) tr ∧ Made s.nextPcb s.pcbs .udp 0 ∧
      s.panic = some .indexOutOfRange ∧
        ¬Machine.Throughout (ReadsFlow Schedule.config 0 (s.pcbs 0).toFlow) tr s := by
  obtain ⟨tr, s, hrun, hmeets, htest⟩ := Machine.exists_run_of_exec (bridge Schedule.config)
    (fun s a => decide (ReadBy 0 0 s a)) (Schedule.udpOpen ++ Schedule.enterLwip)
    (fun s => (step Schedule.config s Schedule.udpEmpty).any fun t =>
      0 < t.nextPcb ∧ (t.pcbs 0).toFlow = Schedule.udpFlow ∧ t.panic = some .indexOutOfRange ∧
        (onFlow Schedule.config 0 Schedule.udpFlow s Schedule.udpEmpty).isSome)
    (by decide +kernel)
  obtain ⟨t, hstep, htest⟩ := (Option.any_eq_true _ _).mp htest
  obtain ⟨hlt, hflow, hpanic, hsome⟩ := of_decide_eq_true htest
  refine ⟨tr ++ [(s, Schedule.udpEmpty)], t, hrun.step hstep, ?_,
    ⟨hlt, congrArg Flow.type hflow⟩, hpanic, ?_⟩
  · exact Machine.meets_snoc.mpr ⟨hmeets.mono fun _ _ => of_decide_eq_true, trivial⟩
  · rintro ⟨_, h⟩
    rw [hflow] at h
    have hnone := h.handled _ List.getLast?_concat hsome
    rw [hpanic] at hnone
    cases hnone

end LwipCs
