import LwipCs.Bridge.UdpSend

/-!
# The loop and a reader in each other's way

The loop is the only one to take from `recvedQueue` and `sendQueue`, and it waits itself
where `recvQueued` of a PCB is full. A reader of that PCB that has to post to a full queue
then never comes back to `Read`.
-/

namespace LwipCs

open Interleave

/-- The loop waits for room in the `recvQueued` of the PCB. -/
def LoopWaits (loop : LoopPc) (chans : RecvChan → Chan Bytes) (p : PcbId) : Prop :=
  ∃ data ctx r, loop = .push p data ctx (some r) ∧ (chans r).Full

/-- A goroutine is about to post the credit of a chunk it took from the PCB. -/
def Thread.credits (p : PcbId) : Thread → Prop
  | .read q _ (.credit _) => q = p
  | _ => False

/-- A goroutine is about to post a buffer for the PCB. -/
def Thread.sends (p : PcbId) : Thread → Prop
  | .write q _ .enqueue | .write q _ .post => q = p
  | _ => False

/-- The goroutine waits in `Read` or `Write` of the PCB for room in a queue that only the
loop drains. -/
def Thread.Stuck (recveds : Chan RecvedEntry) (sends : Chan SendEntry) (p : PcbId)
    (th : Thread) : Prop :=
  (th.credits p ∧ recveds.Full) ∨ (th.sends p ∧ sends.Full)

/-- The loop and a reader of a PCB wait for each other. -/
def Wedged (loop : LoopPc) (chans : RecvChan → Chan Bytes) (threads : Tid → Thread)
    (recveds : Chan RecvedEntry) (sends : Chan SendEntry) : Prop :=
  ∃ p, LoopWaits loop chans p ∧ ∃ t, (threads t).Stuck recveds sends p

/-- `LoopWaits` of a state of the system. -/
abbrev Sys.LoopWaits (s : Sys) : PcbId → Prop := LwipCs.LoopWaits s.loop s.chans

/-- `Wedged` of a state of the system. -/
abbrev Sys.Wedged (s : Sys) : Prop :=
  LwipCs.Wedged s.loop s.chans s.threads s.recvedQueue s.sendQueue

/-- The step of `t` takes a goroutine before a full queue in a method of the PCB: `t` itself,
with a chunk it does not take from the channel the loop waits at, or with a buffer; or
another one, where `t` posts the last entry there is room for. -/
def Sys.Strands (s : Sys) (t : Tid) (p : PcbId) : Prop :=
  match s.threads t with
  | .read q len (.recv r) => q = p ∧ s.recvedQueue.Full ∧ (s.pcbs p).type = .tcp ∧
      (∀ data ctx, s.loop ≠ .push p data ctx (some r)) ∧
      ∃ data ch, (s.chans r).recv = .done (some data, ch) ∧ data ≠ [] ∧ data.length ≤ len
  | .read _ _ (.credit _) => s.recvedQueue.buf.length + 1 = s.recvedQueue.cap ∧
      ∃ u, u ≠ t ∧ (s.threads u).credits p
  | .write q w .test => q = p ∧ s.sendQueue.Full ∧ (s.bufs w).data ≠ [] ∧
      (s.pcbs p).err = false ∧ (s.pcbs p).type = .udp
  | .write q _ .lock => q = p ∧ s.sendQueue.Full
  | .write _ _ .enqueue | .write _ _ .post => s.sendQueue.buf.length + 1 = s.sendQueue.cap ∧
      ∃ u, u ≠ t ∧ (s.threads u).sends p
  | _ => False

/-- The loop does not start to wait at a PCB a reader of which waits, and no step takes
a reader of the PCB the loop waits at before a full queue. -/
def NeverStrands (s : Sys) : Act → Prop
  | .loop _ => ∀ p data ctx, s.loop = .push p data ctx none →
      (s.chans (s.pcbs p).recvQueued).Full →
        ∀ t, ¬(s.threads t).Stuck s.recvedQueue s.sendQueue p
  | .go t => ∀ p, s.LoopWaits p → ¬s.Strands t p
  | _ => True

section

variable {loop : LoopPc} {chans chans' : RecvChan → Chan Bytes} {threads : Tid → Thread}
variable {recveds recveds' : Chan RecvedEntry} {sends sends' : Chan SendEntry} {p : PcbId}
variable {t : Tid} {th : Thread}

/-- A receive or a close leaves a channel that is not full. -/
theorem LoopWaits.setChan {r : RecvChan} {ch : Chan Bytes} (hch : ¬ch.Full) :
    LoopWaits loop (Function.update chans r ch) p ↔
      LoopWaits loop chans p ∧ ∀ data ctx, loop ≠ .push p data ctx (some r) := by
  constructor
  · rintro ⟨data, ctx, r', hloop, hfull⟩
    by_cases hr : r' = r
    · subst hr
      rw [Function.update_self] at hfull
      exact absurd hfull hch
    · rw [Function.update_of_ne hr] at hfull
      refine ⟨⟨data, ctx, r', hloop, hfull⟩, ?_⟩
      intro data' ctx' hloop'
      rw [hloop] at hloop'
      cases hloop'
      exact hr rfl
  · rintro ⟨⟨data, ctx, r', hloop, hfull⟩, hne⟩
    have hr : r' ≠ r := by
      rintro rfl
      exact hne data ctx hloop
    exact ⟨data, ctx, r', hloop, by rwa [Function.update_of_ne hr]⟩

/-- A goroutine that posts nothing is not stuck. -/
theorem Thread.not_stuck (hcredits : ¬th.credits p) (hsends : ¬th.sends p) :
    ¬th.Stuck recveds sends p := by
  rintro (⟨h, _⟩ | ⟨h, _⟩)
  · exact hcredits h
  · exact hsends h

namespace Wedged

/-- A goroutine moves, and may take from a channel. -/
theorem move (h : ¬Wedged loop chans threads recveds sends)
    (hloop : ∀ p, LoopWaits loop chans' p → LoopWaits loop chans p) :
    Wedged loop chans' (Function.update threads t th) recveds sends ↔
      ∃ p, LoopWaits loop chans' p ∧ th.Stuck recveds sends p := by
  constructor
  · rintro ⟨p, hp, u, hu⟩
    by_cases hut : u = t
    · subst hut
      rw [Function.update_self] at hu
      exact ⟨p, hp, hu⟩
    · rw [Function.update_of_ne hut] at hu
      exact absurd ⟨p, hloop p hp, u, hu⟩ h
  · rintro ⟨p, hp, hth⟩
    exact ⟨p, hp, t, by rwa [Function.update_self]⟩

/-- A goroutine moves where it posts nothing. -/
theorem quiet (h : ¬Wedged loop chans threads recveds sends)
    (hth : ∀ p, ¬th.Stuck recveds sends p)
    (hloop : ∀ p, LoopWaits loop chans' p → LoopWaits loop chans p) :
    ¬Wedged loop chans' (Function.update threads t th) recveds sends := by
  rw [move h hloop]
  rintro ⟨p, _, hp⟩
  exact hth p hp

/-- A goroutine moves where it posts nothing, and takes nothing. -/
theorem still (h : ¬Wedged loop chans threads recveds sends) (hcredits : ∀ p, ¬th.credits p)
    (hsends : ∀ p, ¬th.sends p) :
    ¬Wedged loop chans (Function.update threads t th) recveds sends :=
  quiet h (fun p => Thread.not_stuck (hcredits p) (hsends p)) fun _ => id

theorem full_of_send {α : Type} {c c' : Chan α} {x : α} (h : c.send x = .done c') :
    c'.Full ↔ c.buf.length + 1 = c.cap := by
  obtain ⟨_, _, hbuf, hcap, hopen⟩ := Chan.send_done h
  simp [Chan.Full, hbuf, hcap, hopen]

/-- A goroutine posts a credit. -/
theorem credit (h : ¬Wedged loop chans threads recveds sends) {x : RecvedEntry}
    (hsend : recveds.send x = .done recveds')
    (hth : ∀ p, ¬th.Stuck recveds' sends p) :
    Wedged loop chans (Function.update threads t th) recveds' sends ↔
      ∃ p, LoopWaits loop chans p ∧ recveds.buf.length + 1 = recveds.cap ∧
        ∃ u, u ≠ t ∧ (threads u).credits p := by
  constructor
  · rintro ⟨p, hp, u, hu⟩
    by_cases hut : u = t
    · subst hut
      rw [Function.update_self] at hu
      exact absurd hu (hth p)
    · rw [Function.update_of_ne hut] at hu
      rcases hu with ⟨hcredits, hfull⟩ | hsends
      · exact ⟨p, hp, (full_of_send hsend).mp hfull, u, hut, hcredits⟩
      · exact absurd ⟨p, hp, u, Or.inr hsends⟩ h
  · rintro ⟨p, hp, hlast, u, hut, hcredits⟩
    refine ⟨p, hp, u, ?_⟩
    rw [Function.update_of_ne hut]
    exact Or.inl ⟨hcredits, (full_of_send hsend).mpr hlast⟩

/-- A goroutine posts a buffer. -/
theorem send (h : ¬Wedged loop chans threads recveds sends) {x : SendEntry}
    (hsend : sends.send x = .done sends')
    (hth : ∀ p, ¬th.Stuck recveds sends' p) :
    Wedged loop chans (Function.update threads t th) recveds sends' ↔
      ∃ p, LoopWaits loop chans p ∧ sends.buf.length + 1 = sends.cap ∧
        ∃ u, u ≠ t ∧ (threads u).sends p := by
  constructor
  · rintro ⟨p, hp, u, hu⟩
    by_cases hut : u = t
    · subst hut
      rw [Function.update_self] at hu
      exact absurd hu (hth p)
    · rw [Function.update_of_ne hut] at hu
      rcases hu with hcredits | ⟨hsends, hfull⟩
      · exact absurd ⟨p, hp, u, Or.inl hcredits⟩ h
      · exact ⟨p, hp, (full_of_send hsend).mp hfull, u, hut, hsends⟩
  · rintro ⟨p, hp, hlast, u, hut, hsends⟩
    refine ⟨p, hp, u, ?_⟩
    rw [Function.update_of_ne hut]
    exact Or.inr ⟨hsends, (full_of_send hsend).mpr hlast⟩

end Wedged

end

variable {cfg : Config} {s s' : Sys} {o : Outcomes} {t : Tid}

/-- A goroutine that strands nobody moves where it posts nothing, and takes nothing. -/
theorem wedged_still {th : Thread} (hs : ¬s.Wedged) (hcredits : ∀ p, ¬th.credits p)
    (hsends : ∀ p, ¬th.sends p) (hstrands : ∀ q, ¬s.Strands t q) :
    Wedged s.loop s.chans (Function.update s.threads t th) s.recvedQueue s.sendQueue ↔
      ∃ q, s.LoopWaits q ∧ s.Strands t q := by
  refine iff_of_false (Wedged.still hs hcredits hsends) ?_
  rintro ⟨q, _, hq⟩
  exact hstrands q hq

theorem ReadStep.wedged {p : PcbId} {len : Nat} {pc : ReadPc} (hth : s.threads t = .read p len pc)
    (h : ReadStep s t p len pc s') (hs : ¬s.Wedged) :
    s'.Wedged ↔ ∃ q, s.LoopWaits q ∧ s.Strands t q := by
  have room : ∀ {r ch} {x : Option Bytes} {q}, (s.chans r).recv = .done (x, ch) →
      LoopWaits s.loop (Function.update s.chans r ch) q → s.LoopWaits q :=
    fun hrecv h => ((LoopWaits.setChan (Chan.not_full_of_recv hrecv)).mp h).1
  cases h with
  | intercepted _ => exact iff_of_false hs (by simp [Sys.Strands, hth])
  | enter _ => exact wedged_still hs (by nofun) (by nofun) (by simp [Sys.Strands, hth])
  | closed _ => exact wedged_still hs (by nofun) (by nofun) (by simp [Sys.Strands, hth])
  | isOpen _ => exact wedged_still hs (by nofun) (by nofun) (by simp [Sys.Strands, hth])
  | load => exact wedged_still hs (by nofun) (by nofun) (by simp [Sys.Strands, hth])
  | @nothing r ch chunk hrecv hnil =>
      refine iff_of_false (Wedged.quiet hs ?_ fun _ => room hrecv) ?_
      · exact fun _ => Thread.not_stuck (by nofun) (by nofun)
      rintro ⟨q, _, hq⟩
      simp only [Sys.Strands, hth] at hq
      obtain ⟨_, _, _, _, data, ch', hrecv', hdata, _⟩ := hq
      rw [hrecv] at hrecv'
      cases hrecv'
      simp [hdata] at hnil
  | @tooSmall r ch data hrecv hlen =>
      refine iff_of_false (fun h => hs ?_) ?_
      · obtain ⟨q, hq, hstuck⟩ := h
        exact ⟨q, room hrecv hq, hstuck⟩
      · rintro ⟨q, _, hq⟩
        simp only [Sys.Strands, hth] at hq
        obtain ⟨_, _, _, _, data', ch', hrecv', _, hfits⟩ := hq
        rw [hrecv] at hrecv'
        cases hrecv'
        omega
  | @chunk r ch data hrecv hdata hlen htype =>
      refine (Wedged.move hs fun _ => room hrecv).trans ?_
      simp only [LoopWaits.setChan (Chan.not_full_of_recv hrecv), Sys.Strands, hth]
      constructor
      · rintro ⟨q, ⟨hwaits, hne⟩, ⟨rfl, hfull⟩ | ⟨hsends, _⟩⟩
        · exact ⟨p, hwaits, rfl, hfull, htype, hne, data, ch, hrecv, hdata, hlen⟩
        · cases hsends
      · rintro ⟨q, hwaits, rfl, hfull, _, hne, _⟩
        exact ⟨p, ⟨hwaits, hne⟩, Or.inl ⟨rfl, hfull⟩⟩
  | @datagram r ch data hrecv hdata hlen htype =>
      refine iff_of_false (Wedged.quiet hs ?_ fun _ => room hrecv) ?_
      · exact fun _ => Thread.not_stuck (by nofun) (by nofun)
      rintro ⟨q, _, hq⟩
      simp only [Sys.Strands, hth] at hq
      obtain ⟨rfl, _, htcp, _⟩ := hq
      rw [htype] at htcp
      cases htcp
  | errRet _ => exact wedged_still hs (by nofun) (by nofun) (by simp [Sys.Strands, hth])
  | nilRet _ => exact wedged_still hs (by nofun) (by nofun) (by simp [Sys.Strands, hth])
  | @credit data q hsend =>
      refine (Wedged.credit hs hsend fun _ => Thread.not_stuck (by nofun) (by nofun)).trans ?_
      simp only [Sys.Strands, hth]

theorem WriteStep.wedged {p : PcbId} {w : WriteId} {pc : WritePc}
    (hth : s.threads t = .write p w pc) (h : WriteStep s t p w pc s') (hs : ¬s.Wedged) :
    s'.Wedged ↔ ∃ q, s.LoopWaits q ∧ s.Strands t q := by
  cases h with
  | empty hdata =>
      refine iff_of_false (Wedged.still hs (by nofun) (by nofun)) ?_
      rintro ⟨q, _, hq⟩
      simp only [Sys.Strands, hth] at hq
      exact hq.2.2.1 hdata
  | closed _ herr =>
      refine iff_of_false (Wedged.still hs (by nofun) (by nofun)) ?_
      rintro ⟨q, _, hq⟩
      simp only [Sys.Strands, hth] at hq
      obtain ⟨rfl, _, _, hopen, _⟩ := hq
      rw [herr] at hopen
      cases hopen
  | tcp _ _ htype =>
      refine iff_of_false (Wedged.still hs (by nofun) (by nofun)) ?_
      rintro ⟨q, _, hq⟩
      simp only [Sys.Strands, hth] at hq
      obtain ⟨rfl, _, _, _, hudp⟩ := hq
      rw [htype] at hudp
      cases hudp
  | udp hdata herr htype =>
      refine (Wedged.move hs fun _ => id).trans ?_
      simp only [Sys.Strands, hth]
      constructor
      · rintro ⟨q, hwaits, ⟨hcredits, _⟩ | ⟨rfl, hfull⟩⟩
        · cases hcredits
        · exact ⟨p, hwaits, rfl, hfull, hdata, herr, htype⟩
      · rintro ⟨q, hwaits, rfl, hfull, _⟩
        exact ⟨p, hwaits, Or.inr ⟨rfl, hfull⟩⟩
  | lock _ =>
      refine (Wedged.move hs fun _ => id).trans ?_
      simp only [Sys.Strands, hth]
      constructor
      · rintro ⟨q, hwaits, ⟨hcredits, _⟩ | ⟨rfl, hfull⟩⟩
        · cases hcredits
        · exact ⟨p, hwaits, rfl, hfull⟩
      · rintro ⟨q, hwaits, rfl, hfull⟩
        exact ⟨p, hwaits, Or.inr ⟨rfl, hfull⟩⟩
  | enqueue hsend =>
      refine (Wedged.send hs hsend fun _ => Thread.not_stuck (by nofun) (by nofun)).trans ?_
      simp only [Sys.Strands, hth]
  | post hsend =>
      refine (Wedged.send hs hsend fun _ => Thread.not_stuck (by nofun) (by nofun)).trans ?_
      simp only [Sys.Strands, hth]
  | wait _ => exact wedged_still hs (by nofun) (by nofun) (by simp [Sys.Strands, hth])
  | unlock => exact wedged_still hs (by nofun) (by nofun) (by simp [Sys.Strands, hth])
  | ret => exact wedged_still hs (by nofun) (by nofun) (by simp [Sys.Strands, hth])

/-- The loop waits at no channel. -/
theorem not_wedged {loop : LoopPc} {chans : RecvChan → Chan Bytes} {threads : Tid → Thread}
    {recveds : Chan RecvedEntry} {sends : Chan SendEntry}
    (h : ∀ p data ctx r, loop ≠ .push p data ctx (some r)) :
    ¬Wedged loop chans threads recveds sends := by
  rintro ⟨p, ⟨data, ctx, r, hloop, _⟩, _⟩
  exact h p data ctx r hloop

theorem CloseStep.wedged {who : Actor} {p : PcbId} {pc : ClosePc} {next : Option ClosePc}
    {th : Thread} (h : CloseStep s who p pc s' next) (hs : ¬s.Wedged)
    (hth : ∀ q, ¬th.Stuck s.recvedQueue s.sendQueue q) :
    ¬Wedged s'.loop s'.chans (Function.update s'.threads t th) s'.recvedQueue s'.sendQueue := by
  cases h with
  | closeRecv _ hclose =>
      exact Wedged.quiet hs hth fun _ h =>
        ((LoopWaits.setChan (Chan.not_full_of_close hclose)).mp h).1
  | _ => exact Wedged.quiet hs hth fun _ => id

theorem InterceptStep.wedged {p : PcbId} {c : Nat} {pc : InterPc}
    (h : InterceptStep s t p c pc s') (hs : ¬s.Wedged) : ¬s'.Wedged := by
  cases h with
  | closeOld hclose =>
      exact Wedged.quiet hs (fun _ => Thread.not_stuck (by nofun) (by nofun)) fun _ h =>
        ((LoopWaits.setChan (Chan.not_full_of_close hclose)).mp h).1
  | closedOld _ => exact hs
  | _ => exact Wedged.still hs nofun nofun

theorem LoopStep.wedged {pc : LoopPc} (hpc : s.loop = pc) (h : LoopStep cfg s o pc s')
    (hs : ¬s.Wedged) : ¬s'.Wedged ↔ NeverStrands s (.loop o) := by
  have other : (∀ p data ctx, pc ≠ .push p data ctx none) → NeverStrands s (.loop o) := by
    intro hne p data ctx hloop
    exact absurd (hpc.symm.trans hloop) (hne p data ctx)
  cases h with
  | @target p data ctx =>
      constructor
      · rintro h q data' ctx' hloop hfull t hstuck
        rw [hpc] at hloop
        cases hloop
        exact h ⟨p, ⟨data, ctx, _, rfl, hfull⟩, t, hstuck⟩
      · rintro h ⟨q, ⟨data', ctx', r, hloop, hfull⟩, t, hstuck⟩
        cases hloop
        exact h p data ctx hpc hfull t hstuck
  | sendEmpty _ => exact iff_of_true hs (other (by rintro _ _ _ ⟨⟩))
  | udpSendEmpty _ => exact iff_of_true hs (other (by rintro _ _ _ ⟨⟩))
  | pushClosed _ => exact iff_of_true hs (other (by rintro _ _ _ ⟨⟩))
  | doneClosed _ => exact iff_of_true hs (other (by rintro _ _ _ ⟨⟩))
  | _ => exact iff_of_true (not_wedged (by rintro _ _ _ _ ⟨⟩)) (other (by rintro _ _ _ ⟨⟩))

theorem CallbackStep.wedged {cb : Callback} (hloop : s.loop = .lwip)
    (h : CallbackStep cfg s o cb s') (hs : ¬s.Wedged) : ¬s'.Wedged := by
  have inside : ∀ p data ctx r, s.loop ≠ .push p data ctx (some r) := by
    intro p data ctx r hpush
    rw [hloop] at hpush
    cases hpush
  cases h with
  | ignored => exact hs
  | accept _ _ => exact not_wedged inside
  | assertion _ => exact hs
  | recvEmpty _ _ _ _ _ _ => exact not_wedged inside
  | udpEmpty => exact hs
  | _ => exact not_wedged (by rintro _ _ _ _ ⟨⟩)

theorem Step.wedged {a : Act} (h : Step cfg s a s') (hs : ¬s.Wedged) :
    ¬s'.Wedged ↔ NeverStrands s a := by
  cases h with
  | callRead _ _ => exact iff_of_true (Wedged.still hs (by nofun) (by nofun)) trivial
  | callWrite _ _ => exact iff_of_true (Wedged.still hs (by nofun) (by nofun)) trivial
  | callClose _ _ => exact iff_of_true (Wedged.still hs (by nofun) (by nofun)) trivial
  | callIntercept _ _ => exact iff_of_true (Wedged.still hs (by nofun) (by nofun)) trivial
  | read hth h =>
      refine (not_congr (h.wedged hth hs)).trans ?_
      simp only [NeverStrands, not_exists, not_and]
  | write hth h =>
      refine (not_congr (h.wedged hth hs)).trans ?_
      simp only [NeverStrands, not_exists, not_and]
  | close hth h =>
      refine iff_of_true (h.wedged hs ?_) (by simp [NeverStrands, Sys.Strands, hth])
      exact fun _ => Thread.not_stuck (by nofun) (by nofun)
  | closed hth =>
      refine iff_of_true (Wedged.still hs (by nofun) (by nofun)) ?_
      simp [NeverStrands, Sys.Strands, hth]
  | closePost hth _ =>
      refine iff_of_true (Wedged.still hs (by nofun) (by nofun)) ?_
      simp [NeverStrands, Sys.Strands, hth]
  | intercept hth h => exact iff_of_true (h.wedged hs) (by simp [NeverStrands, Sys.Strands, hth])
  | reuse _ _ => exact iff_of_true hs trivial
  | frame _ => exact iff_of_true hs trivial
  | userRecv hrecv =>
      refine iff_of_true ?_ trivial
      rintro ⟨p, hp, hstuck⟩
      exact hs ⟨p, ((LoopWaits.setChan (Chan.not_full_of_recv hrecv)).mp hp).1, hstuck⟩
  | takeRecved _ _ => exact iff_of_true (not_wedged (by rintro _ _ _ _ ⟨⟩)) trivial
  | takeClose hloop _ _ => exact iff_of_true (not_wedged (by simp [hloop])) trivial
  | takeCloseUdp hloop _ _ => exact iff_of_true (not_wedged (by simp [hloop])) trivial
  | takeSend _ _ => exact iff_of_true (not_wedged (by rintro _ _ _ _ ⟨⟩)) trivial
  | takeInput _ _ => exact iff_of_true (not_wedged (by rintro _ _ _ _ ⟨⟩)) trivial
  | loop hpc h => exact h.wedged hpc hs
  | callback hloop h => exact iff_of_true (h.wedged hloop hs) trivial
  | release _ _ _ => exact iff_of_true hs trivial

/-- The loop and a reader never wait for each other in a run, exactly if no step of it
strands a reader. -/
theorem run_unwedged_iff {tr : List (Sys × Act)} (hrun : (bridge cfg).Run tr s) :
    Machine.Always (fun s => ¬s.Wedged) tr s ↔ Machine.Meets NeverStrands tr := by
  refine hrun.always_iff reachable_inOrder (not_wedged (by rintro _ _ _ _ ⟨⟩)) ?_
  intro s a s' hin hs hstep
  exact (step_cases hin hstep).wedged hs

/-- The channel the loop is to send on has room. -/
def Schedule.hasRoom (s : Sys) (_ : Act) : Bool :=
  match s.loop with
  | .push p _ _ none => ¬(s.chans (s.pcbs p).recvQueued).Full
  | .push _ _ _ (some r) => ¬(s.chans r).Full
  | _ => true

/-- A datagram is read, and its echo sent. -/
theorem run_unwedged_echo : ∃ tr s, (bridge Schedule.config).Run tr s ∧
    .udpSendtoIfSrc ⟨.v4 2, 53⟩ ⟨.v4 1, 4000⟩ [1] ∈ s.trace ∧
      Machine.Always (fun s => ¬s.Wedged) tr s := by
  obtain ⟨tr, s, hrun, hmeets, htest⟩ := Machine.exists_run_of_exec (bridge Schedule.config)
    Schedule.hasRoom
    (Schedule.udpOpen ++ [.call 0 (.read 0 1)] ++ List.replicate 4 (.go 0) ++
      Schedule.udpWrite [1] ++
        [.take .send Schedule.fine, .loop Schedule.fine, .loop Schedule.fine])
    (fun s => .udpSendtoIfSrc ⟨.v4 2, 53⟩ ⟨.v4 1, 4000⟩ [1] ∈ s.trace) (by decide)
  refine ⟨tr, s, hrun, of_decide_eq_true htest, (run_unwedged_iff hrun).mpr (hmeets.mono ?_)⟩
  intro s a hroom
  cases a with
  | loop o =>
      intro p data ctx hloop hfull
      simp [Schedule.hasRoom, hloop, hfull] at hroom
  | go t =>
      rintro p ⟨data, ctx, r, hloop, hfull⟩
      simp [Schedule.hasRoom, hloop, hfull] at hroom
  | _ => trivial

/-! ### An echo server -/

/-- Each goroutine only reads from and writes to one PCB. -/
def Echoes (_ : Sys) : Act → Prop
  | .call t (.read p _) | .call t (.write p _) => t = p
  | .call _ _ | .reuse _ _ => False
  | _ => True

/-- The UDP PCB 0 is open, with `queued` datagrams to read and `posted` buffers to send, its
reader stands at `th`, and the loop is at the select. -/
structure Echoing (src : Endpoint) (queued posted : Nat) (th : Thread) (s : Sys) : Prop where
  alive : s.panic = none
  loop : s.loop = .select
  made : 0 < s.nextPcb
  type : (s.pcbs 0).type = .udp
  isOpen : (s.pcbs 0).err = false
  inter : (s.pcbs 0).recvInter = false
  own : (s.pcbs 0).recvQueued = .own 0
  entry : s.udpPcbs (udpKey Schedule.config.host src) = some 0
  thread : s.threads 0 = th
  input : s.inputQueue.closed = false ∧ s.inputQueue.buf = [] ∧ s.inputQueue.cap = queueCap
  input2 : s.inputQueue2.closed = false ∧ s.inputQueue2.buf = [] ∧ s.inputQueue2.cap = queueCap
  received : (s.chans (.own 0)).closed = false ∧ (s.chans (.own 0)).cap = queueCap ∧
    (s.chans (.own 0)).buf = List.replicate queued [1]
  sent : s.sendQueue.closed = false ∧ s.sendQueue.cap = queueCap ∧ s.sendQueue.buf.length = posted

variable {src : Endpoint} {queued posted : Nat} {th : Thread}

namespace Echoing

/-- A frame arrives and the loop enters lwIP, which hands over a datagram. -/
theorem handed (h : Echoing src queued posted th s) (dst : Endpoint) :
    ∃ u, (bridge Schedule.config).Leads Echoes s u ∧
    u.loop = .push 0 [1] (.udp src dst s.upcb) (some (.own 0)) ∧
      Echoing src queued posted th { u with loop := .select } := by
  obtain ⟨hopen, hempty, hcap⟩ := h.input
  obtain ⟨hopen2, hempty2, hcap2⟩ := h.input2
  obtain ⟨q, hsend, hrecv⟩ := Chan.send_recv (x := [0]) hopen hempty (by rw [hcap]; decide)
  obtain ⟨q2, hsend2, hrecv2⟩ := Chan.send_recv (x := [0]) hopen2 hempty2 (by rw [hcap2]; decide)
  have hframe : (bridge Schedule.config).step s (.frame [0]) =
      some { s with inputQueue := q, trace := s.trace ++ [.frameRead [0]] } := by
    simp [bridge, step, h.alive, Sys.readFrame, hsend, Sys.setInputQueue, Sys.emit]
  have htake : (bridge Schedule.config).step
      { s with inputQueue := q, trace := s.trace ++ [.frameRead [0]] }
      (.take .input Schedule.fine) =
        some { s with trace := s.trace ++ [.frameRead [0]], loop := .post [0] } := by
    simp [bridge, step, h.alive, h.loop, Sys.take, hrecv, Sys.setInputQueue, Sys.goto]
  have hpost : (bridge Schedule.config).step
      { s with trace := s.trace ++ [.frameRead [0]], loop := .post [0] } (.loop Schedule.fine) =
        some { s with
          inputQueue2 := q2, trace := s.trace ++ [.frameRead [0]], loop := .netif } := by
    simp [bridge, step, h.alive, Sys.loopStep, hsend2, Sys.setInputQueue2, Sys.goto]
  have hnetif : (bridge Schedule.config).step
      { s with inputQueue2 := q2, trace := s.trace ++ [.frameRead [0]], loop := .netif }
      (.loop Schedule.fine) =
        some { s with
          trace := s.trace ++ [.frameRead [0]] ++ [.netifInput [0]], loop := .lwip } := by
    simp [bridge, step, h.alive, Sys.loopStep, Sys.goInputH, hrecv2, Schedule.fine,
      Sys.setInputQueue2, Sys.emit, Sys.goto]
  have hudp : (bridge Schedule.config).step
      { s with trace := s.trace ++ [.frameRead [0]] ++ [.netifInput [0]], loop := .lwip }
      (.callback (.udp src dst (some [1])) Schedule.fine) =
        some { s with
          trace := s.trace ++ [.frameRead [0]] ++ [.netifInput [0]]
          upcb := dst
          loop := .push 0 [1] (.udp src dst s.upcb) none } := by
    simp [bridge, step, h.alive, Sys.callback, Sys.udpInput, Sys.goUdpRecvH, Sys.setUpcb, h.entry,
      Sys.goto]
  have htarget : (bridge Schedule.config).step
      { s with
        trace := s.trace ++ [.frameRead [0]] ++ [.netifInput [0]]
        upcb := dst
        loop := .push 0 [1] (.udp src dst s.upcb) none }
      (.loop Schedule.fine) =
        some { s with
          trace := s.trace ++ [.frameRead [0]] ++ [.netifInput [0]]
          upcb := dst
          loop := .push 0 [1] (.udp src dst s.upcb) (some (.own 0)) } := by
    simp [bridge, step, h.alive, Sys.loopStep, h.own, Sys.goto]
  have hframed := (Machine.leads_refl Echoes s).step hframe trivial
  have hentered := ((hframed.step htake trivial).step hpost trivial).step hnetif trivial
  exact ⟨_, (hentered.step hudp trivial).step htarget trivial, rfl, { h with loop := rfl }⟩

/-- The loop finds room for the datagram. -/
theorem arrive (h : Echoing src queued posted th s) (dst : Endpoint) (hroom : queued < queueCap) :
    ∃ u, (bridge Schedule.config).Leads Echoes s u ∧ Echoing src (queued + 1) posted th u := by
  obtain ⟨u, hleads, hloop, hu⟩ := h.handed dst
  obtain ⟨hopen, hcap, hbuf⟩ := hu.received
  dsimp only at hopen hcap hbuf
  obtain ⟨ch, hsend⟩ := Chan.send_of_room (x := [1]) hopen
    (by rw [hbuf, List.length_replicate, hcap]; exact hroom)
  obtain ⟨_, _, hbuf', hcap', hopen'⟩ := Chan.send_done hsend
  have halive : u.panic = none := hu.alive
  have hpush : (bridge Schedule.config).step u (.loop Schedule.fine) =
      some { u with
        chans := Function.update u.chans (.own 0) ch
        trace := u.trace ++ [.queued 0 [1]] ++ [.udpQueued 0 src dst [1]]
        upcb := s.upcb
        loop := .lwip } := by
    simp [bridge, step, halive, Sys.loopStep, hloop, hsend, Sys.pushReturned, Sys.setChan,
      Sys.emit, Sys.setUpcb, Sys.goto]
  have hleave : (bridge Schedule.config).step
      { u with
        chans := Function.update u.chans (.own 0) ch
        trace := u.trace ++ [.queued 0 [1]] ++ [.udpQueued 0 src dst [1]]
        upcb := s.upcb
        loop := .lwip } (.loop Schedule.fine) =
      some { u with
        chans := Function.update u.chans (.own 0) ch
        trace := u.trace ++ [.queued 0 [1]] ++ [.udpQueued 0 src dst [1]]
        upcb := s.upcb
        loop := .select } := by
    simp [bridge, step, halive, Sys.loopStep, Sys.goto]
  refine ⟨_, (hleads.step hpush trivial).step hleave trivial, ?_⟩
  refine { hu with received := ?_, loop := rfl }
  dsimp only
  rw [Function.update_self, hbuf', hbuf, hcap', hcap]
  exact ⟨hopen', rfl, List.replicate_succ'.symm⟩

/-- The reader takes a datagram. -/
theorem read (h : Echoing src (queued + 1) posted .idle s) :
    ∃ u, (bridge Schedule.config).Leads Echoes s u ∧ Echoing src queued posted .idle u := by
  obtain ⟨hopen, hcap, hbuf⟩ := h.received
  rw [List.replicate_succ] at hbuf
  obtain ⟨ch, hrecv, hbuf', hcap', hopen'⟩ := Chan.recv_of_cons hbuf
  have hcall : (bridge Schedule.config).step s (.call 0 (.read 0 1)) =
      some { s with threads := Function.update s.threads 0 (.read 0 1 .inter) } := by
    simp [bridge, step, h.alive, Sys.call, h.thread, Call.pcb, h.made, Sys.enter, Sys.setThread]
  have hinter : (bridge Schedule.config).step
      { s with threads := Function.update s.threads 0 (.read 0 1 .inter) } (.go 0) =
        some { s with threads := Function.update s.threads 0 (.read 0 1 .test) } := by
    simp [bridge, step, h.alive, Sys.goStep, Sys.readStep, h.inter, Sys.setThread]
  have htest : (bridge Schedule.config).step
      { s with threads := Function.update s.threads 0 (.read 0 1 .test) } (.go 0) =
        some { s with threads := Function.update s.threads 0 (.read 0 1 .load) } := by
    simp [bridge, step, h.alive, Sys.goStep, Sys.readStep, h.isOpen, Sys.setThread]
  have hload : (bridge Schedule.config).step
      { s with threads := Function.update s.threads 0 (.read 0 1 .load) } (.go 0) =
        some { s with threads := Function.update s.threads 0 (.read 0 1 (.recv (.own 0))) } := by
    simp [bridge, step, h.alive, Sys.goStep, Sys.readStep, h.own, Sys.setThread]
  have hret : (bridge Schedule.config).step
      { s with threads := Function.update s.threads 0 (.read 0 1 (.recv (.own 0))) } (.go 0) =
        some { s with
          chans := Function.update s.chans (.own 0) ch
          trace := s.trace ++ [.readOk 0 0 [1]]
          threads := Function.update s.threads 0 .idle } := by
    simp [bridge, step, h.alive, Sys.goStep, Sys.readStep, hrecv, h.type, Sys.setChan, Sys.emit,
      Sys.setThread]
  have hentered := ((Machine.leads_refl Echoes s).step hcall rfl).step hinter trivial
  refine ⟨_, ((hentered.step htest trivial).step hload trivial).step hret trivial, ?_⟩
  refine { h with received := ?_, thread := by simp }
  dsimp only
  rw [Function.update_self, hopen', hcap', hbuf']
  exact ⟨hopen, hcap, rfl⟩

/-- The reader is about to post what it read. -/
theorem writing (h : Echoing src queued posted .idle s) :
    ∃ u w, (bridge Schedule.config).Leads Echoes s u ∧
      Echoing src queued posted (.write 0 w .post) u := by
  have hcall : (bridge Schedule.config).step s (.call 0 (.write 0 [1])) =
      some { s with
        bufs := Function.update s.bufs s.nextWrite ⟨[1], true⟩
        nextWrite := s.nextWrite + 1
        threads := Function.update s.threads 0 (.write 0 s.nextWrite .test) } := by
    simp [bridge, step, h.alive, Sys.call, h.thread, Call.pcb, h.made, Sys.enter, Sys.addBuf,
      Sys.setThread]
  have htest : (bridge Schedule.config).step
      { s with
        bufs := Function.update s.bufs s.nextWrite ⟨[1], true⟩
        nextWrite := s.nextWrite + 1
        threads := Function.update s.threads 0 (.write 0 s.nextWrite .test) } (.go 0) =
      some { s with
        bufs := Function.update s.bufs s.nextWrite ⟨[1], true⟩
        nextWrite := s.nextWrite + 1
        threads := Function.update s.threads 0 (.write 0 s.nextWrite .post) } := by
    simp [bridge, step, h.alive, Sys.goStep, Sys.writeStep, h.isOpen, h.type, Sys.setThread]
  refine ⟨_, s.nextWrite, ((Machine.leads_refl Echoes s).step hcall rfl).step htest trivial, ?_⟩
  exact { h with thread := by simp }

/-- The reader posts it and comes back from `Write`. -/
theorem write {w : WriteId} (h : Echoing src queued posted (.write 0 w .post) s)
    (hroom : posted < queueCap) :
    ∃ u, (bridge Schedule.config).Leads Echoes s u ∧ Echoing src queued (posted + 1) .idle u := by
  obtain ⟨hopen, hcap, hlen⟩ := h.sent
  obtain ⟨q, hsend⟩ := Chan.send_of_room (x := (⟨0, w⟩ : SendEntry)) hopen
    (by rw [hlen, hcap]; exact hroom)
  obtain ⟨_, _, hbuf', hcap', hopen'⟩ := Chan.send_done hsend
  have hpost : (bridge Schedule.config).step s (.go 0) =
      some { s with
        sendQueue := q
        trace := s.trace ++ [.enqueued 0 w]
        threads := Function.update s.threads 0 (.write 0 w .ret) } := by
    simp [bridge, step, h.alive, Sys.goStep, h.thread, Sys.writeStep, hsend, Sys.setSendQueue,
      Sys.emit, Sys.setThread]
  have hret : (bridge Schedule.config).step
      { s with
        sendQueue := q
        trace := s.trace ++ [.enqueued 0 w]
        threads := Function.update s.threads 0 (.write 0 w .ret) } (.go 0) =
      some { s with
        sendQueue := q
        trace := s.trace ++ [.enqueued 0 w] ++ [.writeRet 0 w (s.bufs w).data true]
        bufs := Function.update s.bufs w { s.bufs w with inUse := false }
        threads := Function.update s.threads 0 .idle } := by
    simp [bridge, step, h.alive, Sys.goStep, Sys.writeStep, h.isOpen, Sys.setBuf, Sys.emit,
      Sys.setThread]
  refine ⟨_, ((Machine.leads_refl Echoes s).step hpost trivial).step hret trivial, ?_⟩
  refine { h with sent := ?_, thread := by simp }
  rw [hbuf', hcap', List.length_append, hlen]
  exact ⟨hopen', hcap, rfl⟩

/-- The first datagram makes the PCB. -/
theorem start : ∃ tr s, (bridge Schedule.config).Run tr s ∧ Machine.Meets Echoes tr ∧
    Echoing ⟨.v4 1, 4000⟩ 1 0 .idle s := by
  obtain ⟨tr, s, hrun, hmeets, htest⟩ := Machine.exists_run_of_exec (bridge Schedule.config)
    (fun _ a => match a with
      | .call _ _ | .reuse _ _ => false
      | _ => true) Schedule.udpOpen
    (fun s => s.panic = none ∧ s.loop = .select ∧ 0 < s.nextPcb ∧ (s.pcbs 0).type = .udp ∧
      (s.pcbs 0).err = false ∧ (s.pcbs 0).recvInter = false ∧ (s.pcbs 0).recvQueued = .own 0 ∧
      s.udpPcbs (udpKey Schedule.config.host ⟨.v4 1, 4000⟩) = some 0 ∧ s.threads 0 = .idle ∧
      (s.inputQueue.closed = false ∧ s.inputQueue.buf = [] ∧ s.inputQueue.cap = queueCap) ∧
      (s.inputQueue2.closed = false ∧ s.inputQueue2.buf = [] ∧ s.inputQueue2.cap = queueCap) ∧
      ((s.chans (.own 0)).closed = false ∧ (s.chans (.own 0)).cap = queueCap ∧
        (s.chans (.own 0)).buf = [[1]]) ∧
      (s.sendQueue.closed = false ∧ s.sendQueue.cap = queueCap ∧ s.sendQueue.buf = []))
    (by decide)
  obtain ⟨halive, hloop, hmade, htype, hopen, hinter, hown, hentry, hth, hin, hin2, hrecv,
    hclosed, hcap, hempty⟩ := of_decide_eq_true htest
  refine ⟨tr, s, hrun, hmeets.mono ?_, ⟨halive, hloop, hmade, htype, hopen, hinter, hown, hentry,
    hth, hin, hin2, hrecv, hclosed, hcap, by rw [hempty]; rfl⟩⟩
  intro s a hok
  cases a with
  | call t m => cases hok
  | reuse w data => cases hok
  | _ => trivial

/-- The loop serves its input only: each datagram is read and posted back. -/
theorem rounds {n : Nat} (hn : n ≤ queueCap) : ∃ tr s, (bridge Schedule.config).Run tr s ∧
    Machine.Meets Echoes tr ∧ Echoing ⟨.v4 1, 4000⟩ 1 n .idle s := by
  induction n with
  | zero => exact start
  | succ n ih =>
      obtain ⟨tr, s, hrun, hmeets, hs⟩ := ih (Nat.le_of_succ_le hn)
      obtain ⟨u, hread, hu⟩ := hs.read
      obtain ⟨v, w, hwriting, hv⟩ := hu.writing
      obtain ⟨x, hwrite, hx⟩ := hv.write hn
      obtain ⟨y, harrive, hy⟩ := hx.arrive ⟨.v4 2, 53⟩ (by decide)
      obtain ⟨tr', hrun', hmeets'⟩ :=
        hrun.leads hmeets (((hread.trans hwriting).trans hwrite).trans harrive)
      exact ⟨tr', y, hrun', hmeets', hy⟩

/-- Datagrams arrive until the channel is full. -/
theorem fill {n : Nat} (h : Echoing src 0 posted th s) (hn : n ≤ queueCap) :
    ∃ u, (bridge Schedule.config).Leads Echoes s u ∧ Echoing src n posted th u := by
  induction n with
  | zero => exact ⟨s, Machine.leads_refl Echoes s, h⟩
  | succ n ih =>
      obtain ⟨u, hleads, hu⟩ := ih (Nat.le_of_succ_le hn)
      obtain ⟨v, harrive, hv⟩ := hu.arrive ⟨.v4 2, 53⟩ hn
      exact ⟨v, hleads.trans harrive, hv⟩

end Echoing

/-- The loop serves its input, and an echo server reads and writes each datagram back:
`sendQueue` is full when it writes again, and `recvQueued` when as many datagrams again
have arrived. -/
theorem not_unwedged_echo : ∃ tr s, (bridge Schedule.config).Run tr s ∧
    Machine.Meets Echoes tr ∧ s.Wedged := by
  obtain ⟨tr, s, hrun, hmeets, hs⟩ := Echoing.rounds (Nat.le_refl queueCap)
  obtain ⟨u, hread, hu⟩ := hs.read
  obtain ⟨v, w, hwriting, hv⟩ := hu.writing
  obtain ⟨x, hfill, hx⟩ := hv.fill (Nat.le_refl queueCap)
  obtain ⟨y, hhanded, hloop, hy⟩ := hx.handed ⟨.v4 2, 53⟩
  obtain ⟨tr', hrun', hmeets'⟩ :=
    hrun.leads hmeets (((hread.trans hwriting).trans hfill).trans hhanded)
  obtain ⟨hopen, hcap, hbuf⟩ := hy.received
  obtain ⟨hopen', hcap', hlen⟩ := hy.sent
  refine ⟨tr', y, hrun', hmeets', 0, ⟨_, _, .own 0, hloop, hopen, ?_⟩, 0, Or.inr ⟨?_, hopen', ?_⟩⟩
  · exact (congrArg List.length hbuf).trans (List.length_replicate.trans hcap.symm)
  · exact (congrArg (Thread.sends 0) hy.thread).mpr rfl
  · exact hlen.trans hcap'.symm

end LwipCs
