import LwipCs.Bridge.Receive

/-!
# Sends on `recvQueued`

A receive handler sends on `recvQueued` without `lck`, some steps after
`go_tcp_recv_h` has tested `err`; `go_udp_recv_h` does not test it at all. The
channel the handler is about to use stays open in exactly the runs in which no
`Close` closes it under the handler, and no datagram reaches a PCB whose channel
is closed but whose entry in `udpPcbs` is still there.
-/

namespace LwipCs

open Interleave

/-- The channel a receive handler is about to send on is open. -/
def Sys.SendsOpen (s : Sys) : Prop :=
  ∀ p data ctx target, s.loop = .push p data ctx target →
    (s.chans (target.getD (s.pcbs p).recvQueued)).closed = false

/-- No `Close` closes the channel of a PCB while a handler is about to send on it,
and no datagram is dispatched to a PCB whose channel is closed. -/
def RecvOk (cfg : Config) (s : Sys) : Act → Prop
  | .callback (.udp src _ (some (_ :: _))) _ =>
      ∀ p, s.udpPcbs (udpKey cfg.host src) = some p →
        (s.chans (s.pcbs p).recvQueued).closed = false
  | .go t => ∀ p, s.threads t = .close p .closeRecv → ∀ data ctx target,
      s.loop ≠ .push p data ctx target
  | _ => True

/-- The PCB a receive handler is about to send to. -/
def LoopPc.handles : LoopPc → Option PcbId
  | .push p _ _ _ => some p
  | _ => none

/-- `SendsOpen` where every PCB keeps its own channel. -/
def Handlers (chans : RecvChan → Chan Bytes) (loop : LoopPc) : Prop :=
  ∀ p, loop.handles = some p → (chans (.own p)).closed = false

variable {cfg : Config} {s t : Sys} {o : Outcomes}

theorem LoopPc.handles_iff {loop : LoopPc} {p : PcbId} :
    loop.handles = some p ↔ ∃ data ctx target, loop = .push p data ctx target := by
  constructor
  · intro h
    cases loop with
    | push q data ctx target =>
        cases h
        exact ⟨data, ctx, target, rfl⟩
    | _ => cases h
  · rintro ⟨data, ctx, target, rfl⟩
    rfl

theorem Sys.Plain.sendsOpen_iff (h : s.Plain) : s.SendsOpen ↔ Handlers s.chans s.loop := by
  have own : ∀ {p data ctx target}, s.loop = .push p data ctx target →
      target.getD (s.pcbs p).recvQueued = .own p := by
    intro p data ctx target hloop
    have hok := h.loop
    rw [hloop] at hok
    cases target with
    | none => exact h.own p
    | some r => exact hok
  constructor
  · intro hopen p hp
    obtain ⟨data, ctx, target, hloop⟩ := LoopPc.handles_iff.mp hp
    rw [← own hloop]
    exact hopen p data ctx target hloop
  · intro hopen p data ctx target hloop
    rw [own hloop]
    exact hopen p (LoopPc.handles_iff.mpr ⟨data, ctx, target, hloop⟩)

section

variable {chans chans' : RecvChan → Chan Bytes} {loop loop' : LoopPc} {ok : Prop}

theorem handlers_of_none (h : loop.handles = none) : Handlers chans loop := by
  intro p hp
  rw [h] at hp
  cases hp

/-- A step that closes no channel and keeps the handler where it is. -/
theorem Handlers.same (hok : ok) (hclosed : ∀ p, (chans' (.own p)).closed = (chans (.own p)).closed)
    (hloop : loop'.handles = loop.handles) :
    Handlers chans' loop' ↔ Handlers chans loop ∧ ok := by
  simp only [Handlers, hclosed, hloop, hok, and_true]

/-- A step outside the handlers. -/
theorem Handlers.outside (hok : ok) (h : loop.handles = none) (h' : loop'.handles = none) :
    Handlers chans' loop' ↔ Handlers chans loop ∧ ok :=
  iff_of_true (handlers_of_none h') ⟨handlers_of_none h, hok⟩

theorem closed_setChan {r : RecvChan} {ch : Chan Bytes} (h : ch.closed = (chans r).closed)
    (p : PcbId) : (Function.update chans r ch (.own p)).closed = (chans (.own p)).closed :=
  update_field Chan.closed h (.own p)

end

theorem ReadStep.closed_eq {th : Tid} {p : PcbId} {len : Nat} {pc : ReadPc}
    (h : ReadStep s th p len pc t) (q : PcbId) :
    (t.chans (.own q)).closed = (s.chans (.own q)).closed ∧ t.loop = s.loop := by
  cases h with
  | nothing hrecv _ => exact ⟨closed_setChan (Chan.closed_of_recv hrecv) q, rfl⟩
  | tooSmall hrecv _ => exact ⟨closed_setChan (Chan.closed_of_recv hrecv) q, rfl⟩
  | chunk hrecv _ _ _ => exact ⟨closed_setChan (Chan.closed_of_recv hrecv) q, rfl⟩
  | datagram hrecv _ _ _ => exact ⟨closed_setChan (Chan.closed_of_recv hrecv) q, rfl⟩
  | _ => exact ⟨rfl, rfl⟩

/-- A step of `PCB.close` closes the channel of its own PCB at most. -/
theorem CloseStep.closed_eq {who : Actor} {p : PcbId} {pc : ClosePc} {next : Option ClosePc}
    (h : CloseStep s who p pc t next) (hs : s.Plain) :
    t.loop = s.loop ∧
      (pc ≠ .closeRecv → ∀ q, (t.chans (.own q)).closed = (s.chans (.own q)).closed) ∧
      (pc = .closeRecv → (t.chans (.own p)).closed = true ∧
        ∀ q, q ≠ p → (t.chans (.own q)).closed = (s.chans (.own q)).closed) := by
  cases h with
  | keepRecv hinter =>
      rw [hs.inter p] at hinter
      cases hinter
  | closeRecv _ hclose =>
      refine ⟨rfl, fun hne => absurd rfl hne, fun _ => ?_⟩
      rw [hs.own p]
      constructor
      · simp only [Function.update_self]
        exact (Chan.close_done hclose).2.2.2
      · intro q hq
        have hne : RecvChan.own q ≠ .own p := fun h => hq (RecvChan.own.inj h)
        simp only [Function.update_of_ne hne]
  | recvTwice _ hclosed =>
      rw [hs.own p] at hclosed
      exact ⟨rfl, fun hne => absurd rfl hne, fun _ => ⟨hclosed, fun _ _ => rfl⟩⟩
  | _ => exact ⟨rfl, fun _ _ => rfl, nofun⟩

theorem LoopStep.handlers_iff {pc : LoopPc} (hpc : s.loop = pc) (h : LoopStep cfg s o pc t)
    (hs : s.Plain) : Handlers t.chans t.loop ↔ Handlers s.chans s.loop ∧ True := by
  have houtside : pc.handles = none → t.loop.handles = none →
      (Handlers t.chans t.loop ↔ Handlers s.chans s.loop ∧ True) :=
    fun hp ht => Handlers.outside trivial (hpc ▸ hp) ht
  have pushed : ∀ {p r ch data}, s.loop.handles = some p → r = .own p →
      (s.chans r).send data = .done ch → t.loop.handles = none →
      (Handlers t.chans t.loop ↔ Handlers s.chans s.loop ∧ True) := by
    rintro p r ch data hp rfl hsend ht
    refine iff_of_true (handlers_of_none ht) ⟨?_, trivial⟩
    intro q hq
    rw [hp] at hq
    cases hq
    exact (Chan.send_done hsend).1
  have hplain : pc.Plain := hpc ▸ hs.loop
  cases h with
  | sendEmpty _ => exact Handlers.same trivial (fun _ => rfl) rfl
  | udpSendEmpty _ => exact Handlers.same trivial (fun _ => rfl) rfl
  | target => exact Handlers.same trivial (fun _ => rfl) (by rw [hpc]; rfl)
  | pushClosed _ => exact Handlers.same trivial (fun _ => rfl) rfl
  | push hsend => exact pushed (by rw [hpc]; rfl) hplain hsend rfl
  | pushUdp hsend => exact pushed (by rw [hpc]; rfl) hplain hsend rfl
  | doneClosed _ => exact Handlers.same trivial (fun _ => rfl) rfl
  | _ => exact houtside rfl rfl

theorem CallbackStep.handlers_iff {cb : Callback} (hloop : s.loop = .lwip)
    (h : CallbackStep cfg s o cb t) (hs : s.Plain) :
    Handlers t.chans t.loop ↔ Handlers s.chans s.loop ∧ RecvOk cfg s (.callback cb o) := by
  have hlwip : s.loop.handles = none := by
    rw [hloop]
    rfl
  -- a callback leaves the channels alone, and the loop may enter a handler
  have enter : ∀ {p data ctx target ok}, t.loop = .push p data ctx target → t.chans = s.chans →
      ((s.chans (.own p)).closed = false ↔ ok) →
      (Handlers t.chans t.loop ↔ Handlers s.chans s.loop ∧ ok) := by
    intro p data ctx target ok ht hchans hok
    rw [ht, hchans]
    constructor
    · intro h
      exact ⟨handlers_of_none hlwip, hok.mp (h p rfl)⟩
    · rintro ⟨_, h⟩ q hq
      cases hq
      exact hok.mpr h
  have fresh : ∀ {p}, (s.chans (.own p)).closed = true → p < s.nextPcb ∧ (s.pcbs p).err = true :=
    fun {p} => hs.closed p
  cases h with
  | @ignored cb hcb =>
      refine Handlers.same ?_ (fun _ => rfl) rfl
      cases cb with
      | udp src dst data =>
          cases data with
          | none => trivial
          | some data => cases hcb
      | _ => trivial
  | accept _ _ => exact Handlers.same trivial (fun _ => rfl) rfl
  | assertion => exact Handlers.same trivial (fun _ => rfl) rfl
  | recvEmpty _ _ _ _ _ _ => exact Handlers.same trivial (fun _ => rfl) rfl
  | recv _ _ _ _ _ herr _ =>
      refine enter rfl rfl (iff_of_true ?_ trivial)
      by_contra hclosed
      rw [(fresh (by simpa using hclosed)).2] at herr
      cases herr
  | udpEmpty => exact Handlers.same trivial (fun _ => rfl) rfl
  | @udpKnown src dst p data hp hdata =>
      obtain ⟨b, rest, rfl⟩ := List.exists_cons_of_ne_nil hdata
      refine enter rfl rfl ?_
      simp only [RecvOk, hp, Option.some.injEq, forall_eq', hs.own p]
  | @udpNew src dst data hp hdata =>
      obtain ⟨b, rest, rfl⟩ := List.exists_cons_of_ne_nil hdata
      refine enter rfl rfl (iff_of_true ?_ ?_)
      · by_contra hclosed
        exact Nat.lt_irrefl _ (fresh (by simpa using hclosed)).1
      · intro p hp'
        rw [hp] at hp'
        cases hp'
  | _ => exact Handlers.outside trivial hlwip rfl

theorem Step.handlers_iff {a : Act} (h : Step cfg s a t) (hs : s.Plain) :
    Handlers t.chans t.loop ↔ Handlers s.chans s.loop ∧ RecvOk cfg s a := by
  have elsewhere : ∀ {th : Tid}, (∀ p, s.threads th ≠ .close p .closeRecv) →
      RecvOk cfg s (.go th) := fun hth p hp => absurd hp (hth p)
  cases h with
  | @read th p len pc t hth h =>
      refine Handlers.same (elsewhere (by rw [hth]; nofun)) (fun q => (h.closed_eq q).1) ?_
      rw [(h.closed_eq p).2]
  | write hth h =>
      refine Handlers.same (elsewhere (by rw [hth]; nofun)) ?_ ?_ <;> cases h <;>
        first | rfl | exact fun _ => rfl
  | @close th p pc pc' s' hth h =>
      obtain ⟨hloop, hsame, hclosing⟩ := h.closed_eq hs
      by_cases hpc : pc = .closeRecv
      · subst hpc
        obtain ⟨hclosed, hother⟩ := hclosing rfl
        have hok : RecvOk cfg s (.go th) ↔ s.loop.handles ≠ some p := by
          rw [RecvOk, Ne, LoopPc.handles_iff]
          simp only [hth, Thread.close.injEq, and_true, forall_eq', not_exists]
        show Handlers s'.chans s'.loop ↔ _
        rw [hok, hloop]
        constructor
        · intro hopen
          refine ⟨?_, ?_⟩
          · intro q hq
            by_cases hqp : q = p
            · subst hqp
              have := hopen q hq
              rw [hclosed] at this
              cases this
            · rw [← hother q hqp]
              exact hopen q hq
          · intro hp
            have := hopen p hp
            rw [hclosed] at this
            cases this
        · rintro ⟨hopen, hne⟩ q hq
          have hqp : q ≠ p := by
            rintro rfl
            exact hne hq
          rw [hother q hqp]
          exact hopen q hq
      · refine Handlers.same (elsewhere ?_) (hsame hpc) (congrArg _ hloop)
        intro q hq
        rw [hth] at hq
        cases hq
        exact hpc rfl
  | closed hth => exact Handlers.same (elsewhere (by rw [hth]; nofun)) (fun _ => rfl) rfl
  | closePost hth _ => exact Handlers.same (elsewhere (by rw [hth]; nofun)) (fun _ => rfl) rfl
  | @intercept th p c pc t hth _ =>
      have := hs.threads th
      rw [hth] at this
      exact absurd this id
  | userRecv hrecv =>
      exact Handlers.same trivial (closed_setChan (Chan.closed_of_recv hrecv)) rfl
  | takeRecved hloop _ => exact Handlers.outside trivial (by rw [hloop]; rfl) rfl
  | takeSend hloop _ => exact Handlers.outside trivial (by rw [hloop]; rfl) rfl
  | takeInput hloop _ => exact Handlers.outside trivial (by rw [hloop]; rfl) rfl
  | loop hpc h => exact h.handlers_iff hpc hs
  | callback hloop h => exact h.handlers_iff hloop hs
  | _ => exact Handlers.same trivial (fun _ => rfl) rfl

/-- Without `Intercept` no handler is about to send on a closed channel, exactly if
every step so far left the handlers' channels alone. -/
theorem run_sendsOpen_iff {tr : List (Sys × Act)} (hrun : (bridge cfg).Run tr s)
    (hno : Machine.Meets NoIntercept tr) : s.SendsOpen ↔ Machine.Meets (RecvOk cfg) tr := by
  rw [(run_plain hrun hno).sendsOpen_iff]
  refine hrun.iff_meets (P := fun s => Handlers s.chans s.loop) hno
    (fun h hno => And.intro (reachable_inOrder h.reachable) (run_plain h hno))
    (handlers_of_none rfl) ?_
  intro s a t hs _ hstep
  exact (step_cases hs.1 hstep).handlers_iff hs.2

/-- A chunk is handed over while nobody closes. -/
theorem run_sendsOpen_recv : ∃ tr s, (bridge Schedule.config).Run tr s ∧
    Machine.Meets (RecvOk Schedule.config) tr ∧ (s.chans (.own 0)).buf = [[9]] := by
  obtain ⟨tr, s, hrun, hmeets, htest⟩ := Machine.exists_run_of_exec (bridge Schedule.config)
    (fun s a => decide (NoIntercept s a))
    (Schedule.accept ++ [.callback (.recv 1 (some [9]) .ok) Schedule.fine, .loop Schedule.fine,
      .loop Schedule.fine])
    (fun s => (s.chans (.own 0)).buf = [[9]] ∧ s.loop = .lwip) (by decide)
  obtain ⟨hbuf, hloop⟩ := of_decide_eq_true htest
  have hno : Machine.Meets NoIntercept tr := hmeets.mono fun _ _ => of_decide_eq_true
  refine ⟨tr, s, hrun, (run_sendsOpen_iff hrun hno).mp ?_, hbuf⟩
  intro p data ctx target hpush
  rw [hloop] at hpush
  cases hpush

/-- `Close` closes the channel between the handler's test of `err` and its send. -/
theorem sendOnClosed_close : ∃ tr s, (bridge Schedule.config).Run tr s ∧
    Machine.Meets NoIntercept tr ∧ ¬s.SendsOpen ∧ s.panic = some .sendOnClosed := by
  obtain ⟨tr, s, hrun, hmeets, htest⟩ := Machine.exists_run_of_exec (bridge Schedule.config)
    (fun s a => decide (NoIntercept s a))
    (Schedule.accept ++ [.callback (.recv 1 (some [9]) .ok) Schedule.fine, .call 0 (.close 0),
      .go 0, .go 0, .go 0, .go 0, .loop Schedule.fine, .loop Schedule.fine])
    (fun s => s.loop = .push 0 [9] (.tcp 0) (some (.own 0)) ∧ (s.chans (.own 0)).closed = true ∧
      s.panic = some .sendOnClosed) (by decide)
  obtain ⟨hloop, hclosed, hpanic⟩ := of_decide_eq_true htest
  refine ⟨tr, s, hrun, hmeets.mono fun _ _ => of_decide_eq_true, ?_, hpanic⟩
  intro hopen
  have := hopen _ _ _ _ hloop
  rw [show Option.getD (some (RecvChan.own 0)) _ = .own 0 from rfl, hclosed] at this
  cases this

end LwipCs
