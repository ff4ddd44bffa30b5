import LwipCs.Bridge.CloseOnce

/-!
# Receiving without `Intercept`

While nobody calls `Intercept`, a PCB keeps the channel that `newPCB` made for it.
`PCB.close` closes that channel after it has set `err`, and nothing else does.
-/

namespace LwipCs

open Interleave

def Act.intercepts : Act → Bool
  | .call _ (.intercept ..) => true
  | _ => false

/-- No goroutine calls `Intercept`. -/
def NoIntercept (_ : Sys) (a : Act) : Prop := a.intercepts = false

instance (s : Sys) (a : Act) : Decidable (NoIntercept s a) :=
  inferInstanceAs (Decidable (a.intercepts = false))

/-- A goroutine that is not in `Intercept` and reads from the channel of its PCB. -/
def Thread.Plain : Thread → Prop
  | .intercept .. => False
  | .read p _ (.recv r) => r = .own p
  | _ => True

/-- A receive handler is about to send on the channel of its PCB. -/
def LoopPc.Plain : LoopPc → Prop
  | .push p _ _ (some r) => r = .own p
  | _ => True

/-- Every PCB receives through the channel made with it, and where that is closed
`err` is set. -/
structure OwnChannels (nextPcb : PcbId) (pcbs : PcbId → PCB) (chans : RecvChan → Chan Bytes)
    (threads : Tid → Thread) (loop : LoopPc) : Prop where
  inter : ∀ p, (pcbs p).recvInter = false
  own : ∀ p, (pcbs p).recvQueued = .own p
  threads : ∀ t, (threads t).Plain
  loop : loop.Plain
  closed : ∀ p, (chans (.own p)).closed = true → p < nextPcb ∧ (pcbs p).err = true

/-- `OwnChannels` of a state of the system. -/
abbrev Sys.Plain (s : Sys) : Prop := OwnChannels s.nextPcb s.pcbs s.chans s.threads s.loop

namespace OwnChannels

variable {nextPcb : PcbId} {pcbs : PcbId → PCB} {chans : RecvChan → Chan Bytes}
variable {threads : Tid → Thread} {loop : LoopPc}

theorem setPcb (h : OwnChannels nextPcb pcbs chans threads loop) {p : PcbId} {x : PCB}
    (hinter : x.recvInter = (pcbs p).recvInter)
    (hown : x.recvQueued = (pcbs p).recvQueued) (herr : (pcbs p).err = true → x.err = true) :
    OwnChannels nextPcb (Function.update pcbs p x) chans threads loop := by
  refine { h with inter := ?_, own := ?_, closed := ?_ } <;> intro q
  · by_cases hq : q = p
    · subst hq
      rw [Function.update_self, hinter]
      exact h.inter q
    · rw [Function.update_of_ne hq]
      exact h.inter q
  · by_cases hq : q = p
    · subst hq
      rw [Function.update_self, hown]
      exact h.own q
    · rw [Function.update_of_ne hq]
      exact h.own q
  · intro hclosed
    obtain ⟨hlt, hset⟩ := h.closed q hclosed
    refine ⟨hlt, ?_⟩
    by_cases hq : q = p
    · subst hq
      rw [Function.update_self]
      exact herr hset
    · rwa [Function.update_of_ne hq]

/-- A PCB just made has its own channel, still open. -/
theorem newPcb (h : OwnChannels nextPcb pcbs chans threads loop) {flow : Flow} :
    OwnChannels (nextPcb + 1) (Function.update pcbs nextPcb (newPCB nextPcb flow)) chans threads
      loop := by
  refine { h with inter := ?_, own := ?_, closed := ?_ } <;> intro q
  · by_cases hq : q = nextPcb
    · subst hq
      rw [Function.update_self]
      rfl
    · rw [Function.update_of_ne hq]
      exact h.inter q
  · by_cases hq : q = nextPcb
    · subst hq
      rw [Function.update_self]
      rfl
    · rw [Function.update_of_ne hq]
      exact h.own q
  · intro hclosed
    obtain ⟨hlt, hset⟩ := h.closed q hclosed
    rw [Function.update_of_ne (Nat.ne_of_lt hlt)]
    exact ⟨Nat.lt_succ_of_lt hlt, hset⟩

theorem setThread (h : OwnChannels nextPcb pcbs chans threads loop) {t : Tid} {th : Thread}
    (hth : th.Plain) :
    OwnChannels nextPcb pcbs chans (Function.update threads t th) loop := by
  refine { h with threads := ?_ }
  apply (Function.forall_update_iff threads fun _ x => x.Plain).mpr
  exact ⟨hth, fun u _ => h.threads u⟩

theorem goto (h : OwnChannels nextPcb pcbs chans threads loop) {pc : LoopPc}
    (hpc : pc.Plain) : OwnChannels nextPcb pcbs chans threads pc :=
  { h with loop := hpc }

/-- A send or a receive on a channel. -/
theorem setChan (h : OwnChannels nextPcb pcbs chans threads loop) {r : RecvChan}
    {ch : Chan Bytes} (hclosed : ch.closed = (chans r).closed) :
    OwnChannels nextPcb pcbs (Function.update chans r ch) threads loop := by
  refine { h with closed := ?_ }
  intro p hp
  by_cases hr : .own p = r
  · subst hr
    rw [Function.update_self, hclosed] at hp
    exact h.closed p hp
  · rw [Function.update_of_ne hr] at hp
    exact h.closed p hp

/-- The close of the channel of a PCB whose `err` is set. -/
theorem closeChan (h : OwnChannels nextPcb pcbs chans threads loop) {p : PcbId}
    {ch : Chan Bytes} (hp : p < nextPcb) (herr : (pcbs p).err = true) :
    OwnChannels nextPcb pcbs (Function.update chans (pcbs p).recvQueued ch) threads loop := by
  refine { h with closed := ?_ }
  intro q hq
  by_cases hqp : q = p
  · subst hqp
    exact ⟨hp, herr⟩
  · rw [h.own p, Function.update_of_ne (fun h => hqp (RecvChan.own.inj h))] at hq
    exact h.closed q hq

end OwnChannels

variable {cfg : Config} {s t : Sys} {o : Outcomes}

theorem ReadStep.plain {th : Tid} {p : PcbId} {len : Nat} {pc : ReadPc}
    (h : ReadStep s th p len pc t) (hs : s.Plain) : t.Plain := by
  cases h with
  | intercepted _ => exact hs
  | load => exact hs.setThread (hs.own p)
  | nothing hrecv _ => exact .setThread (hs.setChan (Chan.closed_of_recv hrecv)) trivial
  | tooSmall hrecv _ => exact hs.setChan (Chan.closed_of_recv hrecv)
  | chunk hrecv _ _ _ => exact .setThread (hs.setChan (Chan.closed_of_recv hrecv)) trivial
  | datagram hrecv _ _ _ => exact .setThread (hs.setChan (Chan.closed_of_recv hrecv)) trivial
  | _ => exact hs.setThread trivial

theorem WriteStep.plain {th : Tid} {p : PcbId} {w : WriteId} {pc : WritePc}
    (h : WriteStep s th p w pc t) (hs : s.Plain) : t.Plain := by
  cases h with
  | lock _ => exact .setThread (hs.setPcb (by rfl) (by rfl) (by exact id)) trivial
  | wait _ => exact .setThread (hs.setPcb (by rfl) (by rfl) (by exact id)) trivial
  | unlock => exact .setThread (hs.setPcb (by rfl) (by rfl) (by exact id)) trivial
  | _ => exact hs.setThread trivial

theorem CloseStep.plain {who : Actor} {p : PcbId} {pc : ClosePc} {next : Option ClosePc}
    (hpos : inClose s.threads s.loop who = some (p, pc)) (h : CloseStep s who p pc t next)
    (hs : s.Plain) (honce : s.ClosedOnce) (hknown : s.InUse) : t.Plain := by
  cases h with
  | lock _ => exact hs.setPcb rfl rfl id
  | setErr => exact hs.setPcb rfl rfl fun _ => rfl
  | closeRecv _ _ => exact hs.closeChan (hknown.inClose_lt hpos) (honce.erred who p _ hpos rfl)
  | closeWait _ _ => exact hs.setPcb rfl rfl id
  | unlock => exact hs.setPcb rfl rfl id
  | _ => exact hs

theorem LoopStep.plain {pc : LoopPc} (hpc : s.loop = pc) (h : LoopStep cfg s o pc t)
    (hs : s.Plain) (honce : s.ClosedOnce) (hknown : s.InUse) : t.Plain := by
  cases h with
  | sendFailed _ _ _ _ _ => exact .goto (hs.setPcb (by rfl) (by rfl) (by exact id)) trivial
  | sendTcp _ _ _ _ _ _ _ => exact .goto (hs.setPcb (by rfl) (by rfl) (by exact id)) trivial
  | sendEmpty _ => exact hs
  | udpSendEmpty _ => exact hs
  | @target p data ctx => exact hs.goto (hs.own p)
  | pushClosed _ => exact hs
  | push hsend => exact .goto (hs.setChan (Chan.closed_of_send hsend)) trivial
  | pushUdp hsend => exact .goto (hs.setChan (Chan.closed_of_send hsend)) trivial
  | doneClosed _ => exact hs
  | done _ => exact .goto (hs.setPcb (by rfl) (by rfl) (by exact id)) trivial
  | @close p pc pc' a e k s' hclose =>
      have hpos : inClose s.threads s.loop .loop = some (p, pc) := by
        rw [hpc]
        rfl
      exact .goto (hclose.plain hpos hs honce hknown) trivial
  | closed => exact .goto (hs.setPcb (by rfl) (by rfl) (by exact id)) trivial
  | _ => exact hs.goto trivial

theorem CallbackStep.plain {cb : Callback} (h : CallbackStep cfg s o cb t) (hs : s.Plain) :
    t.Plain := by
  cases h with
  | ignored => exact hs
  | accept _ _ => exact hs.newPcb
  | assertion => exact hs
  | recvEmpty _ _ _ _ _ _ => exact hs
  | sent _ _ _ _ _ _ _ _ => exact .goto (hs.setPcb (by rfl) (by rfl) (by exact id)) trivial
  | udpEmpty => exact hs
  | udpNew _ _ => exact .goto hs.newPcb trivial
  | _ => exact hs.goto trivial

theorem Step.plain {a : Act} (h : Step cfg s a t) (hno : NoIntercept s a) (hs : s.Plain)
    (honce : s.ClosedOnce) (hknown : s.InUse) : t.Plain := by
  cases h with
  | callRead _ _ => exact hs.setThread trivial
  | callWrite _ _ => exact hs.setThread trivial
  | callClose _ _ => exact hs.setThread trivial
  | callIntercept _ _ => cases hno
  | read _ h => exact h.plain hs
  | write _ h => exact h.plain hs
  | @close th p pc pc' s' hth h =>
      have hpos : inClose s.threads s.loop (.goroutine th) = some (p, pc) := by
        rw [inClose, hth]
        rfl
      exact .setThread (h.plain hpos hs honce hknown) trivial
  | closed _ => exact .setThread (hs.setPcb (by rfl) (by rfl) (by exact id)) trivial
  | closePost _ _ => exact hs.setThread trivial
  | @intercept th p c pc t hth _ =>
      have := hs.threads th
      rw [hth] at this
      exact absurd this id
  | userRecv hrecv => exact hs.setChan (Chan.closed_of_recv hrecv)
  | takeRecved _ _ => exact hs.goto trivial
  | takeSend _ _ => exact hs.goto trivial
  | takeInput _ _ => exact hs.goto trivial
  | loop hpc h => exact h.plain hpc hs honce hknown
  | callback _ h => exact h.plain hs
  | _ => exact hs

/-- Without `Intercept` every PCB keeps its own channel. -/
theorem run_plain {tr : List (Sys × Act)} (hrun : (bridge cfg).Run tr s)
    (hno : Machine.Meets NoIntercept tr) : s.Plain := by
  have known : ∀ {s}, (bridge cfg).Reachable s → s.InOrder ∧ s.ClosedOnce :=
    fun h => ⟨reachable_inOrder h, reachable_closedOnce h⟩
  refine hrun.invariant_under hno known ?_ ?_
  · refine ⟨fun _ => rfl, fun _ => rfl, fun _ => trivial, trivial, ?_⟩
    intro p hclosed
    cases hclosed
  · intro s a t hs _ hplain hno hstep
    exact (step_cases hs.1 hstep).plain hno hplain hs.2 hs.1.known

end LwipCs
