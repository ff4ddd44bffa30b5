import LwipCs.Bridge.Credit
import LwipCs.Bridge.Delivered
import LwipCs.Bridge.Receive
import LwipCs.Interleave.Total

/-!
# Where the bytes of a connection are

However many goroutines read from a TCP PCB, what their Reads returned, what each of
them has taken from `recvQueued` and not returned yet, what is in `recvQueued`, and the
chunk the handler is about to queue are together at most what lwIP delivered on the
connection.
-/

namespace LwipCs

open Interleave

/-- How many bytes the chunks have. -/
def size (chunks : List Bytes) : Nat := (chunks.map List.length).sum

@[simp] theorem size_nil : size [] = 0 := rfl

@[simp] theorem size_cons (data : Bytes) (chunks : List Bytes) :
    size (data :: chunks) = data.length + size chunks := by
  simp [size]

@[simp] theorem size_append (a b : List Bytes) : size (a ++ b) = size a + size b := by
  simp [size]

/-- The bytes lwIP delivered on the connection. -/
def deliveredBytes (k : ConnId) (trace : List Event) : Nat :=
  size (select (Event.deliveredTo k) trace)

theorem deliveredBytes_snoc (k : ConnId) (trace : List Event) (ev : Event) :
    deliveredBytes k (trace ++ [ev]) =
      deliveredBytes k trace + size (ev.deliveredTo k).toList := by
  rw [deliveredBytes, select_snoc, size_append]
  rfl

/-- The bytes `p` has returned, those its readers hold, those in its channel `own` and
those about to be queued were all delivered. -/
structure Accounted (p nextPcb : PcbId) (pcbs : PcbId → PCB) (own : List Bytes)
    (threads : Tid → Thread) (pushing : List Bytes) (trace : List Event) : Prop where
  unmade : nextPcb ≤ p → own = [] ∧ pushing = [] ∧ returned p trace = 0 ∧
    ∀ t, (threads t).received p = []
  within : Made nextPcb pcbs .tcp p → ∃ held,
    Total (fun t => size ((threads t).received p)) held ∧
      returned p trace + held + size own + size pushing ≤ deliveredBytes (pcbs p).conn trace

/-- `Accounted` of a state of the system. -/
abbrev Sys.InAccounted (s : Sys) (p : PcbId) : Prop :=
  Accounted p s.nextPcb s.pcbs (s.chans (.own p)).buf s.threads (s.loop.pushing p) s.trace

section

variable {p nextPcb : PcbId} {pcbs : PcbId → PCB} {own own' : List Bytes}
variable {threads : Tid → Thread} {pushing : List Bytes} {trace : List Event} {ev : Event}

/-- The total in the hands of the readers moves with one of them. -/
theorem held_update {held : Nat} (h : Total (fun u => size ((threads u).received p)) held)
    (t : Tid) (th : Thread) :
    Total (fun u => size ((Function.update threads t th u).received p))
      (held - size ((threads t).received p) + size (th.received p)) := by
  have hshares : (fun u => size ((Function.update threads t th u).received p)) =
      Function.update (fun u => size ((threads u).received p)) t (size (th.received p)) := by
    funext u
    by_cases hu : u = t
    · subst hu
      rw [Function.update_self, Function.update_self]
    · rw [Function.update_of_ne hu, Function.update_of_ne hu]
  rw [hshares]
  exact h.update t _

namespace Accounted

/-- One more event that returns nothing; it may deliver something. -/
theorem emit (h : Accounted p nextPcb pcbs own threads pushing trace)
    (hread : ev.readOn p = none := by rfl) :
    Accounted p nextPcb pcbs own threads pushing (trace ++ [ev]) := by
  have hsame : returned p (trace ++ [ev]) = returned p trace := by
    rw [returned_snoc, hread]
    rfl
  constructor
  · rw [hsame]
    exact h.unmade
  · intro hp
    obtain ⟨held, htotal, hle⟩ := h.within hp
    refine ⟨held, htotal, ?_⟩
    rw [hsame, deliveredBytes_snoc]
    omega

/-- `if Event != nil { Event.… }` -/
theorem notify (event : Bool) (h : Accounted p nextPcb pcbs own threads pushing trace)
    (hread : ev.readOn p = none := by rfl) :
    Accounted p nextPcb pcbs own threads pushing (trace ++ if event then [ev] else []) :=
  snoc_if (P := Accounted p nextPcb pcbs own threads pushing) event h (h.emit hread)

theorem setPcb (h : Accounted p nextPcb pcbs own threads pushing trace) {q : PcbId} {x : PCB}
    (hflow : x.toFlow = (pcbs q).toFlow := by rfl) :
    Accounted p nextPcb (Function.update pcbs q x) own threads pushing trace := by
  have flow : ∀ u, (Function.update pcbs q x u).toFlow = (pcbs u).toFlow := flow_update hflow
  refine { h with within := ?_ }
  simpa only [Made, flow] using h.within

/-- A PCB just made has nothing yet. -/
theorem newPcb (h : Accounted p nextPcb pcbs own threads pushing trace) {x : PCB} :
    Accounted p (nextPcb + 1) (Function.update pcbs nextPcb x) own threads pushing trace := by
  refine ⟨fun hp => h.unmade (Nat.le_of_succ_le hp), ?_⟩
  rintro ⟨hlt, htype⟩
  by_cases hp : p = nextPcb
  · obtain ⟨hown, hpushing, hreturned, hreceived⟩ := h.unmade (Nat.le_of_eq hp.symm)
    refine ⟨0, ?_, ?_⟩
    · have hnone : (fun t => size ((threads t).received p)) = fun _ => 0 := by
        funext t
        rw [hreceived t, size_nil]
      rw [hnone]
      exact Total.zero
    · rw [hown, hpushing, hreturned]
      exact Nat.zero_le _
  · rw [Function.update_of_ne hp] at htype ⊢
    exact h.within ⟨Nat.lt_of_le_of_ne (Nat.le_of_lt_succ hlt) hp, htype⟩

/-- A datagram is about to be queued, or was returned, on a UDP PCB. -/
theorem udp (hp : Made nextPcb pcbs .udp p) :
    Accounted p nextPcb pcbs own threads pushing trace := by
  refine ⟨fun hle => absurd hp.1 (Nat.not_lt.mpr hle), ?_⟩
  rintro ⟨_, htype⟩
  rw [hp.2] at htype
  cases htype

/-- A goroutine moves and holds what it held. -/
theorem setThread (h : Accounted p nextPcb pcbs own threads pushing trace) {t : Tid}
    {th : Thread} (hsame : th.received p = (threads t).received p) :
    Accounted p nextPcb pcbs own (Function.update threads t th) pushing trace := by
  have hall : ∀ u, (Function.update threads t th u).received p = (threads u).received p :=
    update_field (Thread.received p) hsame
  constructor
  · simpa only [hall] using h.unmade
  · simpa only [hall] using h.within

/-- A Read finds nothing in the channel, or the process ends over what it found. -/
theorem shrink (h : Accounted p nextPcb pcbs own threads pushing trace)
    (hle : size own' ≤ size own) (hnil : own = [] → own' = []) :
    Accounted p nextPcb pcbs own' threads pushing trace := by
  constructor
  · intro hp
    obtain ⟨hown, hrest⟩ := h.unmade hp
    exact ⟨hnil hown, hrest⟩
  · intro hp
    obtain ⟨held, htotal, hbound⟩ := h.within hp
    exact ⟨held, htotal, by omega⟩

/-- A Read takes a chunk from the channel. -/
theorem hold {data : Bytes} (h : Accounted p nextPcb pcbs (data :: own) threads pushing trace)
    {t : Tid} {th : Thread} (hbefore : (threads t).received p = [])
    (hafter : th.received p = [data]) :
    Accounted p nextPcb pcbs own (Function.update threads t th) pushing trace := by
  constructor
  · intro hp
    cases (h.unmade hp).1
  · intro hp
    obtain ⟨held, htotal, hbound⟩ := h.within hp
    refine ⟨_, held_update htotal t th, ?_⟩
    rw [hbefore, hafter]
    simp only [size_cons, size_nil] at hbound ⊢
    omega

/-- The chunk is returned. -/
theorem ret {data : Bytes} (h : Accounted p nextPcb pcbs own threads pushing trace) {t : Tid}
    {th : Thread} (hbefore : (threads t).received p = [data]) (hafter : th.received p = []) :
    Accounted p nextPcb pcbs own (Function.update threads t th) pushing
      (trace ++ [.readOk t p data]) := by
  have hreturned : returned p (trace ++ [.readOk t p data]) = returned p trace + data.length := by
    rw [returned_snoc, Event.readOn, if_pos rfl]
    rfl
  constructor
  · intro hp
    have hnone := (h.unmade hp).2.2.2 t
    rw [hbefore] at hnone
    cases hnone
  · intro hp
    obtain ⟨held, htotal, hbound⟩ := h.within hp
    have hle := htotal.le t
    refine ⟨_, held_update htotal t th, ?_⟩
    rw [hbefore] at hle
    rw [hbefore, hafter, hreturned, deliveredBytes_snoc]
    simp only [size_cons, size_nil] at hle ⊢
    omega

/-- lwIP delivers a chunk, and the handler goes on to queue it. -/
theorem deliver {q : PcbId} {data : Bytes}
    (h : Accounted p nextPcb pcbs own threads [] trace) (hq : q < nextPcb) :
    Accounted p nextPcb pcbs own threads (if q = p then [data] else [])
      (trace ++ [.delivered (pcbs q).conn data]) := by
  by_cases hqp : q = p
  · subst hqp
    rw [if_pos rfl]
    refine ⟨fun hle => absurd hq (Nat.not_lt.mpr hle), ?_⟩
    intro hp
    obtain ⟨held, htotal, hbound⟩ := h.within hp
    refine ⟨held, htotal, ?_⟩
    rw [returned_snoc, deliveredBytes_snoc, Event.deliveredTo, if_pos rfl]
    simp only [Event.readOn, Option.map_none, Option.getD_none, Option.toList_some, size_cons,
      size_nil] at hbound ⊢
    omega
  · rw [if_neg hqp]
    exact h.emit

/-- The chunk is queued. -/
theorem queue {data : Bytes} (h : Accounted p nextPcb pcbs own threads [data] trace) :
    Accounted p nextPcb pcbs (own ++ [data]) threads [] trace := by
  constructor
  · intro hp
    cases (h.unmade hp).2.1
  · intro hp
    obtain ⟨held, htotal, hbound⟩ := h.within hp
    refine ⟨held, htotal, ?_⟩
    simp only [size_append, size_cons, size_nil] at hbound ⊢
    omega

end Accounted

end

variable {cfg : Config} {s t : Sys} {o : Outcomes} {p : PcbId}

/-- What a step at the channel of `q` leaves in that of `p`. -/
theorem own_update {chans : RecvChan → Chan Bytes} {q : PcbId} {ch : Chan Bytes} (hq : q ≠ p) :
    Function.update chans (.own q) ch (.own p) = chans (.own p) :=
  Function.update_of_ne (fun hsame => hq (RecvChan.own.inj hsame).symm) ..

theorem ReadStep.accounted {th : Tid} {q : PcbId} {len : Nat} {pc : ReadPc}
    (hth : s.threads th = .read q len pc) (h : ReadStep s th q len pc t) (hin : s.InUse)
    (hplain : s.Plain) (hs : s.InAccounted p) : t.InAccounted p := by
  have hok : (Thread.read q len pc).Ok s.nextPcb s.pcbs := hth ▸ hin.threads th
  have hown : (Thread.read q len pc).Plain := hth ▸ hplain.threads th
  have hrec : (s.threads th).received p = (Thread.read q len pc).received p := by rw [hth]
  cases h with
  | intercepted _ => exact hs
  | enter _ => exact hs.setThread hrec.symm
  | closed _ => exact .emit (hs.setThread hrec.symm)
  | isOpen _ => exact hs.setThread hrec.symm
  | load => exact hs.setThread hrec.symm
  | @nothing r ch chunk hrecv hnil =>
      obtain rfl := hown
      by_cases hq : q = p
      · subst hq
        have hall := Chan.head_of_recv hrecv
        simp only [Sys.InAccounted, Function.update_self]
        refine .setThread (hs.shrink ?_ (Chan.drained_of_recv hrecv)) hrec.symm
        rw [← hall, size_append]
        exact Nat.le_add_left _ _
      · simp only [Sys.InAccounted, own_update hq]
        exact hs.setThread hrec.symm
  | @tooSmall r ch data hrecv hlen =>
      obtain rfl := hown
      by_cases hq : q = p
      · subst hq
        simp only [Sys.InAccounted, Function.update_self]
        refine hs.shrink ?_ (Chan.drained_of_recv hrecv)
        rw [(Chan.recv_some hrecv).1, size_cons]
        exact Nat.le_add_left _ _
      · simp only [Sys.InAccounted, own_update hq]
        exact hs
  | @chunk r ch data hrecv hdata hlen htype =>
      obtain rfl := hown
      by_cases hq : q = p
      · subst hq
        simp only [Sys.InAccounted, Function.update_self]
        rw [Sys.InAccounted, (Chan.recv_some hrecv).1] at hs
        exact hs.hold hrec (if_pos rfl)
      · simp only [Sys.InAccounted, own_update hq]
        exact hs.setThread ((if_neg hq).trans hrec.symm)
  | @datagram r ch data hrecv hdata hlen htype =>
      obtain rfl := hown
      by_cases hq : q = p
      · subst hq
        exact .udp ⟨hok, htype⟩
      · have hother : Event.readOn p (.readOk th q data) = none := if_neg hq
        simp only [Sys.InAccounted, own_update hq]
        exact .emit (hs.setThread hrec.symm) hother
  | errRet _ => exact .emit (hs.setThread hrec.symm)
  | nilRet _ => exact .emit (hs.setThread hrec.symm)
  | @credit data _ hsend =>
      by_cases hq : q = p
      · subst hq
        exact hs.ret (hrec.trans (if_pos rfl)) rfl
      · have hother : Event.readOn p (.readOk th q data) = none := if_neg hq
        exact .emit (hs.setThread (hrec.trans (if_neg hq)).symm) hother

theorem WriteStep.accounted {th : Tid} {q : PcbId} {w : WriteId} {pc : WritePc}
    (hth : s.threads th = .write q w pc) (h : WriteStep s th q w pc t) (hs : s.InAccounted p) :
    t.InAccounted p := by
  have hrec : (s.threads th).received p = [] := by
    rw [hth]
    rfl
  cases h with
  | empty _ => exact .emit (hs.setThread hrec.symm)
  | closed _ _ => exact hs.setThread hrec.symm
  | tcp _ _ _ => exact hs.setThread hrec.symm
  | udp _ _ _ => exact hs.setThread hrec.symm
  | lock _ => exact .emit (.setThread hs.setPcb hrec.symm)
  | enqueue _ => exact .emit (hs.setThread hrec.symm)
  | wait _ => exact .emit (.setThread hs.setPcb hrec.symm)
  | unlock => exact .setThread hs.setPcb hrec.symm
  | post _ => exact .emit (hs.setThread hrec.symm)
  | ret => exact .emit (hs.setThread hrec.symm)

theorem CloseStep.accounted {who : Actor} {q : PcbId} {pc : ClosePc} {next : Option ClosePc}
    (h : CloseStep s who q pc t next) (hs : s.InAccounted p) : t.InAccounted p := by
  cases h with
  | lock _ => exact hs.setPcb
  | setErr => exact .emit hs.setPcb
  | closeRecv _ hclose =>
      have hbuf := update_field Chan.buf (Chan.close_done hclose).2.1 (RecvChan.own p)
      simp only [Sys.InAccounted, hbuf]
      exact hs
  | closeWait _ _ => exact hs.setPcb
  | unlock => exact hs.setPcb
  | _ => exact hs

theorem LoopStep.accounted {pc : LoopPc} (hpc : s.loop = pc) (h : LoopStep cfg s o pc t)
    (hplain : s.Plain) (hs : s.InAccounted p) : t.InAccounted p := by
  have hs' : Accounted p s.nextPcb s.pcbs (s.chans (.own p)).buf s.threads (pc.pushing p)
      s.trace := hpc ▸ hs
  have hown : pc.Plain := hpc ▸ hplain.loop
  -- the handler of `q` sends on the channel of `q`
  have push : ∀ {q : PcbId} {data : Bytes} {ctx : PushCtx} {r : RecvChan} {ch : Chan Bytes},
      LoopPc.Plain (.push q data ctx (some r)) → (s.chans r).send data = .done ch →
      Accounted p s.nextPcb s.pcbs (s.chans (.own p)).buf s.threads
        (LoopPc.pushing p (.push q data ctx (some r))) s.trace →
      Accounted p s.nextPcb s.pcbs (Function.update s.chans r ch (.own p)).buf s.threads []
        s.trace := by
    intro q data ctx r ch hown hsend hbefore
    obtain rfl := hown
    by_cases hq : q = p
    · subst hq
      rw [LoopPc.pushing, if_pos rfl] at hbefore
      rw [Function.update_self, (Chan.send_done hsend).2.2.1]
      exact hbefore.queue
    · rw [LoopPc.pushing, if_neg hq] at hbefore
      rwa [own_update hq]
  cases h with
  | creditClosed _ => exact hs'
  | credit _ => exact hs'.emit
  | dropped _ => exact hs'.emit
  | passed _ _ => exact hs'.emit
  | sendEmpty _ => exact hs
  | udpSendEmpty _ => exact hs
  | sendFailed _ _ _ _ _ => exact .emit hs'.setPcb
  | sendTcp _ _ _ _ _ _ _ => exact .emit (.emit hs'.setPcb)
  | sendUdp _ _ _ => exact .emit hs'.emit
  | sendUdpFailed _ _ _ => exact hs'.emit
  | post _ => exact hs'
  | netif => exact hs'.emit
  | netifNone => exact hs'
  | leave => exact hs'
  | target => exact hs'
  | pushClosed _ => exact hs
  | push hsend => exact .emit (.emit (push hown hsend hs'))
  | pushUdp hsend => exact .emit (.emit (push hown hsend hs'))
  | doneClosed _ => exact hs
  | done _ => exact hs'.setPcb
  | @close q pc pc' a e k s' hclose =>
      have hclosed := hclose.accounted hs
      rw [Sys.InAccounted, hclose.loopKept.loop, hpc] at hclosed
      exact hclosed
  | closed => exact .emit (.emit (.notify cfg.event hs'.setPcb))

theorem CallbackStep.accounted {cb : Callback} (hloop : s.loop = .lwip)
    (h : CallbackStep cfg s o cb t) (hin : s.InOrder) (hs : s.InAccounted p) :
    t.InAccounted p := by
  have hs' : Accounted p s.nextPcb s.pcbs (s.chans (.own p)).buf s.threads [] s.trace := by
    rwa [Sys.InAccounted, hloop] at hs
  cases h with
  | ignored => exact hs
  | accept _ _ => exact .emit (.notify cfg.event (.emit hs.newPcb))
  | assertion => exact hs
  | recvClosed _ _ _ _ _ _ => exact .emit (.emit hs'.emit)
  | recvEmpty _ _ _ _ _ _ => exact .emit hs.emit
  | recv _ _ hq hes _ _ _ =>
      obtain ⟨hlt, _, _⟩ := hin.table.known _ _ hq
      obtain ⟨es', hes', hconn, _⟩ := hin.table.entry _ _ hq
      obtain rfl := Option.some.inj (hes.symm.trans hes')
      rw [hconn]
      exact .emit (hs'.deliver hlt)
  | fin _ _ _ _ _ => exact .emit hs'.emit
  | err _ _ _ _ _ => exact .emit (.emit hs'.emit)
  | sentMore _ _ _ _ _ _ _ => exact .emit hs'.emit
  | sentIdle _ _ _ _ _ _ _ => exact hs'.emit
  | sent _ _ _ _ _ _ _ _ => exact .emit hs'.setPcb
  | pollMore _ _ _ _ _ _ _ => exact hs'.emit
  | udpEmpty => exact hs
  | @udpKnown src dst q data hq _ =>
      by_cases hqp : q = p
      · subst hqp
        exact .udp (hin.known.udp _ q hq)
      · have hnone : LoopPc.pushing p (.push q data (.udp src dst s.upcb) none) = [] := if_neg hqp
        simp only [Sys.InAccounted, hnone]
        exact hs'
  | @udpNew src dst data _ _ =>
      refine .notify cfg.event ?_
      by_cases hqp : s.nextPcb = p
      · subst hqp
        refine .udp ⟨Nat.lt_succ_self _, ?_⟩
        simp only [Function.update_self]
        rfl
      · have hnone : LoopPc.pushing p (.push s.nextPcb data (.udp src dst s.upcb) none) = [] :=
          if_neg hqp
        rw [hnone]
        exact hs'.newPcb

theorem Step.accounted {a : Act} (h : Step cfg s a t) (hin : s.InOrder) (hplain : s.Plain)
    (hs : s.InAccounted p) : t.InAccounted p := by
  have select : ∀ {pc : LoopPc}, s.loop = .select → pc.pushing p = [] →
      Accounted p s.nextPcb s.pcbs (s.chans (.own p)).buf s.threads (pc.pushing p) s.trace := by
    intro pc hloop hpc
    rw [Sys.InAccounted, hloop] at hs
    rwa [hpc]
  have idle : ∀ {u : Tid}, s.threads u = .idle → (s.threads u).received p = [] := by
    intro u hu
    rw [hu]
    rfl
  cases h with
  | callRead hidle _ => exact hs.setThread (idle hidle).symm
  | callWrite hidle _ => exact hs.setThread (idle hidle).symm
  | callClose hidle _ => exact .setThread hs.emit (idle hidle).symm
  | callIntercept hidle _ => exact hs.setThread (idle hidle).symm
  | read hth h => exact h.accounted hth hin.known hplain hs
  | write hth h => exact h.accounted hth hs
  | close hth h =>
      refine .setThread (h.accounted hs) ?_
      rw [(h.inUse hin.known).2.2.1, hth]
      rfl
  | closed hth =>
      refine .setThread hs.setPcb ?_
      rw [hth]
      rfl
  | closePost hth _ =>
      refine hs.setThread ?_
      rw [hth]
      rfl
  | @intercept th q c pc s' hth _ =>
      have hnever := hplain.threads th
      rw [hth] at hnever
      exact absurd hnever id
  | reuse _ _ => exact hs
  | frame _ => exact hs.emit
  | @userRecv c chunk ch hrecv =>
      have hsame : Function.update s.chans (.user c) ch (.own p) = s.chans (.own p) :=
        Function.update_of_ne (by simp) ..
      simp only [Sys.InAccounted, hsame]
      exact hs
  | takeRecved hloop _ => exact select hloop rfl
  | takeClose _ _ _ => exact hs.emit
  | takeCloseUdp _ _ _ => exact hs.emit
  | takeSend hloop _ => exact select hloop rfl
  | takeInput hloop _ => exact select hloop rfl
  | loop hpc h => exact h.accounted hpc hplain hs
  | callback hloop h => exact h.accounted hloop hin hs
  | release _ _ _ => exact hs

/-- Without `Intercept` the Reads of a TCP PCB return no more than lwIP delivered on its
connection. -/
theorem run_accounted {tr : List (Sys × Act)} (hrun : (bridge cfg).Run tr s)
    (hno : Machine.Meets NoIntercept tr) : s.InAccounted p := by
  have hboth : s.Plain ∧ s.InAccounted p := by
    induction hrun with
    | start =>
        refine ⟨run_plain .start (Machine.meets_nil _), ?_, ?_⟩
        · exact fun _ => ⟨rfl, rfl, rfl, fun _ => rfl⟩
        · exact fun hp => absurd hp.1 (Nat.not_lt_zero p)
    | step hrun hstep ih =>
        obtain ⟨hfront, _⟩ := Machine.meets_snoc.mp hno
        obtain ⟨hplain, hs⟩ := ih hfront
        have hin := reachable_inOrder hrun.reachable
        exact ⟨run_plain (hrun.step hstep) hno, (step_cases hin hstep).accounted hin hplain hs⟩
  exact hboth.2

theorem returned_le_delivered {tr : List (Sys × Act)} (hrun : (bridge cfg).Run tr s)
    (hno : Machine.Meets NoIntercept tr) (hp : Made s.nextPcb s.pcbs .tcp p) :
    returned p s.trace ≤ deliveredBytes (s.pcbs p).conn s.trace := by
  obtain ⟨held, _, hle⟩ := (run_accounted hrun hno).within hp
  omega

end LwipCs
