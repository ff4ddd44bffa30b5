import LwipCs.Bridge.TcpWrite
import LwipCs.Bridge.UdpSend

/-!
# The buffers of callers

`sendQueue` holds references to the buffers passed to `Write`. A buffer is in flight
while its call runs, while its entry is posted for an open PCB, and from the test in
`Send` to the copy. The call on a TCP PCB runs until its `Send` is over; the call on a
UDP PCB returns before.
-/

namespace LwipCs

open Interleave

/-- The loop copies the buffer to pbufs in its next step: it is at `tcpSend` of an open PCB,
or at `udpSend`. -/
def Sys.Copies (s : Sys) (w : WriteId) : Prop :=
  ∃ p, (s.loop = .send ⟨p, w⟩ ∧ (s.pcbs p).type = .tcp ∧ (s.pcbs p).err = false) ∨
    s.loop = .udpSend ⟨p, w⟩

/-- What `Send` copies to the pbufs is what the buffer held when `Write` was called. -/
def CopiesCalled (cfg : Config) (tr : List (Sys × Act)) : Prop :=
  ∀ s₀ th p data, (s₀, Act.call th (.write p data)) ∈ tr →
    ∀ s o, (s, Act.loop o) ∈ tr → s.Copies s₀.nextWrite →
      chainBytes (charChain cfg.lwip (s.bufs s₀.nextWrite).data) = data

/-- No caller changes a buffer whose entry for an open UDP PCB is posted, or past the test
in `Send`; and the length of a buffer that is copied fits `u16_t`. -/
def KeepsPosted (s : Sys) : Act → Prop
  | .reuse w data => ∀ p, ⟨p, w⟩ ∈ s.loop.inHand ++ s.sendQueue.buf → (s.pcbs p).type = .udp →
      (s.pcbs p).err = false ∨ s.loop = .udpSend ⟨p, w⟩ → data = (s.bufs w).data
  | .loop _ => ∀ w, s.Copies w → (s.bufs w).data.length < 2 ^ 16
  | _ => True

/-- The buffer past the test in `Send`. -/
def LoopPc.copying : LoopPc → List WriteId
  | .udpSend entry => [entry.data]
  | _ => []

/-- The buffer may still be copied. -/
def InFlight (pcbs : PcbId → PCB) (bufs : WriteId → Buffer) (entries : List SendEntry)
    (copying : List WriteId) (w : WriteId) : Prop :=
  (bufs w).inUse = true ∨ (∃ p, ⟨p, w⟩ ∈ entries ∧ (pcbs p).err = false) ∨ w ∈ copying

/-- `InFlight` of a state of the system. -/
abbrev Sys.InFlight (s : Sys) (w : WriteId) : Prop :=
  LwipCs.InFlight s.pcbs s.bufs (s.loop.inHand ++ s.sendQueue.buf) s.loop.copying w

namespace InFlight

variable {nextPcb : PcbId} {pcbs : PcbId → PCB} {bufs : WriteId → Buffer}
variable {entries : List SendEntry} {copying : List WriteId} {w v : WriteId} {p : PcbId}

/-! A buffer that is in flight after a step was so before. -/

theorem of_kept {pcbs' : PcbId → PCB} (h : InFlight pcbs' bufs entries copying w)
    (hkept : PcbsKept pcbs pcbs') : InFlight pcbs bufs entries copying w := by
  rcases h with huse | ⟨q, hentry, hopen⟩ | hcopy
  · exact Or.inl huse
  · exact Or.inr (Or.inl ⟨q, hentry, hkept.isOpen q hopen⟩)
  · exact Or.inr (Or.inr hcopy)

theorem newPcb {x : PCB} (h : InFlight (Function.update pcbs nextPcb x) bufs entries copying w)
    (hknown : ∀ entry ∈ entries, entry.pcb < nextPcb) :
    InFlight pcbs bufs entries copying w := by
  rcases h with huse | ⟨q, hentry, hopen⟩ | hcopy
  · exact Or.inl huse
  · rw [Function.update_of_ne (Nat.ne_of_lt (hknown _ hentry))] at hopen
    exact Or.inr (Or.inl ⟨q, hentry, hopen⟩)
  · exact Or.inr (Or.inr hcopy)

theorem mono {entries' : List SendEntry} {copying' : List WriteId}
    (h : InFlight pcbs bufs entries' copying' w) (hsub : entries' ⊆ entries)
    (hcopying : copying' ⊆ copying) : InFlight pcbs bufs entries copying w := by
  rcases h with huse | ⟨q, hentry, hopen⟩ | hcopy
  · exact Or.inl huse
  · exact Or.inr (Or.inl ⟨q, hsub hentry, hopen⟩)
  · exact Or.inr (Or.inr (hcopying hcopy))

/-- `Send` finds `err` not set. -/
theorem pass (h : InFlight pcbs bufs (⟨p, v⟩ :: entries) [v] w) (hopen : (pcbs p).err = false) :
    InFlight pcbs bufs (⟨p, v⟩ :: entries) [] w := by
  rcases h with huse | hentry | hcopy
  · exact Or.inl huse
  · exact Or.inr (Or.inl hentry)
  · obtain rfl := List.mem_singleton.mp hcopy
    exact Or.inr (Or.inl ⟨p, List.mem_cons_self, hopen⟩)

/-- The call that posts its buffer runs. -/
theorem post (h : InFlight pcbs bufs (entries ++ [⟨p, v⟩]) copying w)
    (hv : (bufs v).inUse = true) : InFlight pcbs bufs entries copying w := by
  rcases h with huse | ⟨q, hentry, hopen⟩ | hcopy
  · exact Or.inl huse
  · rcases List.mem_append.mp hentry with hentry | hentry
    · exact Or.inr (Or.inl ⟨q, hentry, hopen⟩)
    · cases List.mem_singleton.mp hentry
      exact Or.inl hv
  · exact Or.inr (Or.inr hcopy)

theorem setBuf {b : Buffer} (h : InFlight pcbs (Function.update bufs v b) entries copying w)
    (hb : b.inUse = true → (bufs v).inUse = true) : InFlight pcbs bufs entries copying w := by
  rcases h with huse | hentry
  · by_cases hw : w = v
    · subst hw
      rw [Function.update_self] at huse
      exact Or.inl (hb huse)
    · rw [Function.update_of_ne hw] at huse
      exact Or.inl huse
  · exact Or.inr hentry

end InFlight

variable {cfg : Config} {s t : Sys} {o : Outcomes} {w : WriteId}

/-- The methods other than `Write`. -/
theorem LoopKept.inFlight {kind : Event → Bool} (h : LoopKept kind s t)
    (hwrites : WritesKept s t) (ht : t.InFlight w) :
    s.InFlight w ∧ (t.bufs w).data = (s.bufs w).data := by
  rw [Sys.InFlight, h.loop, hwrites.bufs, hwrites.sendQueue] at ht
  rw [hwrites.bufs]
  exact ⟨ht.of_kept h.pcbs, rfl⟩

theorem LoopStep.inFlight {pc : LoopPc} (hpc : s.loop = pc) (h : LoopStep cfg s o pc t)
    (ht : t.InFlight w) : s.InFlight w ∧ t.bufs = s.bufs := by
  have front : ∀ {pcbs : PcbId → PCB}, InFlight pcbs s.bufs s.sendQueue.buf [] w →
      InFlight pcbs s.bufs (s.loop.inHand ++ s.sendQueue.buf) s.loop.copying w :=
    fun h => h.mono (List.subset_append_right _ _) (List.nil_subset _)
  cases h with
  | passed herr _ =>
      rw [Sys.InFlight, hpc]
      exact ⟨InFlight.pass ht herr, rfl⟩
  | sendFailed _ _ _ _ _ => exact ⟨front (InFlight.of_kept ht .set), rfl⟩
  | sendTcp _ _ _ _ _ _ _ => exact ⟨front (InFlight.of_kept ht .set), rfl⟩
  | sendEmpty _ => exact ⟨ht, rfl⟩
  | udpSendEmpty _ => exact ⟨ht, rfl⟩
  | pushClosed _ => exact ⟨ht, rfl⟩
  | doneClosed _ => exact ⟨ht, rfl⟩
  | done _ => exact ⟨front (InFlight.of_kept ht .set), rfl⟩
  | @close p pc pc' a e k s' hclose =>
      have hsame : LwipCs.InFlight s'.pcbs s'.bufs s'.sendQueue.buf [] w := ht
      rw [hclose.writesKept.bufs, hclose.writesKept.sendQueue] at hsame
      exact ⟨front (hsame.of_kept hclose.loopKept.pcbs), hclose.writesKept.bufs⟩
  | closed => exact ⟨front (InFlight.of_kept ht .set), rfl⟩
  | _ => exact ⟨front ht, rfl⟩

theorem CallbackStep.inFlight {cb : Callback} (hloop : s.loop = .lwip)
    (h : CallbackStep cfg s o cb t) (hknown : s.InUse) (ht : t.InFlight w) :
    s.InFlight w ∧ t.bufs = s.bufs := by
  have made : ∀ {x : PCB},
      InFlight (Function.update s.pcbs s.nextPcb x) s.bufs s.sendQueue.buf [] w →
        InFlight s.pcbs s.bufs s.sendQueue.buf [] w := fun h => h.newPcb hknown.sends
  rw [Sys.InFlight, hloop]
  cases h with
  | ignored =>
      rw [Sys.InFlight, hloop] at ht
      exact ⟨ht, rfl⟩
  | accept _ _ =>
      rw [Sys.InFlight, hloop] at ht
      exact ⟨made ht, rfl⟩
  | assertion =>
      rw [Sys.InFlight, hloop] at ht
      exact ⟨ht, rfl⟩
  | recvEmpty _ _ _ _ _ _ =>
      rw [Sys.InFlight, hloop] at ht
      exact ⟨ht, rfl⟩
  | sent _ _ _ _ _ _ _ _ => exact ⟨InFlight.of_kept ht .set, rfl⟩
  | udpEmpty =>
      rw [Sys.InFlight, hloop] at ht
      exact ⟨ht, rfl⟩
  | udpNew _ _ => exact ⟨made ht, rfl⟩
  | _ => exact ⟨ht, rfl⟩

theorem copying_eq (h : w ∈ s.loop.copying) : ∃ p, s.loop = .udpSend ⟨p, w⟩ := by
  cases hpc : s.loop with
  | udpSend entry =>
      rw [hpc] at h
      obtain rfl := List.mem_singleton.mp h
      exact ⟨entry.pcb, rfl⟩
  | _ =>
      rw [hpc] at h
      cases h

/-- A posted buffer of an open TCP PCB is in use. -/
theorem posted_inUse (hready : s.OutputReady) {p : PcbId} (hp : p < s.nextPcb)
    (htype : (s.pcbs p).type = .tcp) (hopen : (s.pcbs p).err = false)
    (hentry : ⟨p, w⟩ ∈ s.loop.inHand ++ s.sendQueue.buf) : (s.bufs w).inUse = true := by
  obtain ⟨th, hth⟩ := hready.shaken.posted ⟨⟨hp, htype⟩, hopen⟩ (mem_pendingOn.mpr hentry)
  exact hready.writes.inUse th p w _ hth

/-- The PCBs of the entries in hand and in the queue were made. -/
theorem Sys.InUse.entry_lt (h : s.InUse) :
    ∀ entry ∈ s.loop.inHand ++ s.sendQueue.buf, entry.pcb < s.nextPcb := by
  intro entry hentry
  rcases List.mem_append.mp hentry with hhand | hqueue
  · have hloop := h.loop
    cases hpc : s.loop with
    | send e =>
        rw [hpc] at hhand hloop
        obtain rfl := List.mem_singleton.mp hhand
        exact hloop
    | udpSend e =>
        rw [hpc] at hhand hloop
        obtain rfl := List.mem_singleton.mp hhand
        exact hloop.1
    | _ =>
        rw [hpc] at hhand
        cases hhand
  · exact h.sends entry hqueue

theorem WriteStep.inFlight {th : Tid} {p : PcbId} {v : WriteId} {pc : WritePc}
    (hth : s.threads th = .write p v pc) (h : WriteStep s th p v pc t) (hready : s.OutputReady)
    (ht : t.InFlight w) : s.InFlight w ∧ (t.bufs w).data = (s.bufs w).data := by
  have posted : ∀ {q}, s.sendQueue.send ⟨p, v⟩ = .done q →
      InFlight s.pcbs s.bufs (s.loop.inHand ++ q.buf) s.loop.copying w → s.InFlight w := by
    intro q hsend hafter
    rw [(Chan.send_done hsend).2.2.1, ← List.append_assoc] at hafter
    exact hafter.post (hready.writes.inUse th p v pc hth)
  have returned : (Function.update s.bufs v { s.bufs v with inUse := false } w).data =
      (s.bufs w).data := update_field Buffer.data (by rfl) w
  cases h with
  | empty _ => exact ⟨InFlight.setBuf ht nofun, returned⟩
  | lock _ => exact ⟨InFlight.of_kept ht .set, rfl⟩
  | enqueue hsend => exact ⟨posted hsend ht, rfl⟩
  | wait _ => exact ⟨InFlight.of_kept ht .set, rfl⟩
  | unlock => exact ⟨InFlight.of_kept ht .set, rfl⟩
  | post hsend => exact ⟨posted hsend ht, rfl⟩
  | ret => exact ⟨InFlight.setBuf ht nofun, returned⟩
  | _ => exact ⟨ht, rfl⟩

/-- What a caller stores in a buffer that its `Write` has returned, and that is in flight, are the
bytes it holds. -/
theorem reused_data (hready : s.OutputReady) {data : Bytes} (hdone : (s.bufs w).inUse = false)
    (hok : KeepsPosted s (.reuse w data)) (h : s.InFlight w) : data = (s.bufs w).data := by
  have hknown := hready.order.known
  rcases h with huse | ⟨p, hentry, hopen⟩ | hcopy
  · rw [hdone] at huse
    cases huse
  · cases htype : (s.pcbs p).type with
    | tcp =>
        -- the call on a TCP PCB has not returned
        have huse := posted_inUse hready (hknown.entry_lt _ hentry) htype hopen hentry
        rw [hdone] at huse
        cases huse
    | udp => exact hok p hentry htype (Or.inl hopen)
  · obtain ⟨p, hpc⟩ := copying_eq hcopy
    have hloop := hknown.loop
    rw [hpc] at hloop
    refine hok p ?_ hloop.2 (Or.inr hpc)
    rw [hpc]
    exact List.mem_cons_self

/-- No step changes the bytes of a buffer in flight, and none but a call puts one in
flight. -/
theorem Step.inFlight {a : Act} (h : Step cfg s a t) (hok : KeepsPosted s a)
    (hready : s.OutputReady) (hw : w < s.nextWrite) (ht : t.InFlight w) :
    s.InFlight w ∧ (t.bufs w).data = (s.bufs w).data := by
  cases h with
  | callWrite _ _ =>
      have hne : w ≠ s.nextWrite := Nat.ne_of_lt hw
      simp only [Sys.InFlight, LwipCs.InFlight, Function.update_of_ne hne] at ht ⊢
      exact ⟨ht, trivial⟩
  | read hth h => exact h.loopKept.inFlight (h.writesKept hth) ht
  | write hth h => exact h.inFlight hth hready ht
  | close _ h => exact h.loopKept.inFlight h.writesKept ht
  | closed _ => exact ⟨InFlight.of_kept ht .set, rfl⟩
  | intercept hth h =>
      have hkept : LoopKept Event.ofGoroutine _ _ := h.loopKept
      exact hkept.inFlight (h.writesKept hth) ht
  | @reuse v data hdone _ =>
      have hbefore : s.InFlight w := InFlight.setBuf ht id
      refine ⟨hbefore, ?_⟩
      by_cases hv : w = v
      · subst hv
        show (Function.update s.bufs w _ w).data = _
        rw [Function.update_self]
        exact reused_data hready hdone hok hbefore
      · show (Function.update s.bufs v _ w).data = _
        rw [Function.update_of_ne hv]
  | takeRecved hloop _ =>
      rw [Sys.InFlight, hloop]
      exact ⟨ht, rfl⟩
  | takeSend hloop hrecv =>
      rw [Sys.InFlight, hloop, (Chan.recv_some hrecv).1]
      exact ⟨ht, rfl⟩
  | takeInput hloop _ =>
      rw [Sys.InFlight, hloop]
      exact ⟨ht, rfl⟩
  | loop hpc h =>
      obtain ⟨hbefore, hbufs⟩ := h.inFlight hpc ht
      exact ⟨hbefore, by rw [hbufs]⟩
  | callback hloop h =>
      obtain ⟨hbefore, hbufs⟩ := h.inFlight hloop hready.order.known ht
      exact ⟨hbefore, by rw [hbufs]⟩
  | _ => exact ⟨ht, rfl⟩

theorem Step.nextWrite_le {a : Act} (h : Step cfg s a t) : s.nextWrite ≤ t.nextWrite := by
  by_cases ha : a.ofGoroutine = false
  · exact (h.callsKept ha).nextWrite.ge
  cases h with
  | callWrite _ _ => exact Nat.le_succ _
  | read hth h => exact (h.writesKept hth).nextWrite.ge
  | write _ h => cases h <;> exact Nat.le_refl _
  | close _ h => exact h.writesKept.nextWrite.ge
  | intercept hth h => exact (h.writesKept hth).nextWrite.ge
  | _ => first | exact Nat.le_refl _ | exact absurd rfl ha

theorem Sys.Copies.inHand (h : s.Copies w) : ∃ p, ⟨p, w⟩ ∈ s.loop.inHand := by
  obtain ⟨p, ⟨hloop, _⟩ | hloop⟩ := h <;>
  · rw [hloop]
    exact ⟨p, List.mem_singleton_self _⟩

theorem Sys.Copies.inFlight (h : s.Copies w) : s.InFlight w := by
  obtain ⟨p, ⟨hloop, _, hopen⟩ | hloop⟩ := h
  · rw [Sys.InFlight, hloop]
    exact Or.inr (Or.inl ⟨p, List.mem_cons_self, hopen⟩)
  · rw [Sys.InFlight, hloop]
    exact Or.inr (Or.inr (List.mem_singleton_self w))

/-- A buffer that is copied was passed to a call. -/
theorem copies_lt (h : (bridge cfg).Reachable s) (hcopies : s.Copies w) : w < s.nextWrite := by
  obtain ⟨p, hhand⟩ := hcopies.inHand
  have hpending : w ∈ pendingOn p (s.loop.inHand ++ s.sendQueue.buf) :=
    mem_pendingOn.mpr (List.mem_append_left _ hhand)
  have hposted : w ∈ select (Event.enqueuedOn p) s.trace := by
    rw [(reachable_inSends h).order p]
    exact List.mem_append_right _ hpending
  exact ((reachable_writesOk h).posted p w (mem_enqueuedOn.mp hposted)).1

/-- The buffers in flight hold what their calls were given, in a run and at its end. -/
structure Carries (cfg : Config) (tr : List (Sys × Act)) (s : Sys) : Prop where
  grows : ∀ x ∈ tr, x.1.nextWrite ≤ s.nextWrite
  called : ∀ s₀ th p data, (s₀, Act.call th (.write p data)) ∈ tr → s₀.nextWrite < s.nextWrite
  kept : ∀ s₀ th p data, (s₀, Act.call th (.write p data)) ∈ tr → s.InFlight s₀.nextWrite →
    (s.bufs s₀.nextWrite).data = data
  copied : CopiesCalled cfg tr

theorem Carries.step {tr : List (Sys × Act)} {a : Act} (h : Carries cfg tr s)
    (hrun : (bridge cfg).Run tr s) (hstep : Step cfg s a t) (hok : KeepsPosted s a) :
    Carries cfg (tr ++ [(s, a)]) t := by
  have hready := reachable_outputReady hrun.reachable
  have hle := hstep.nextWrite_le
  constructor
  · intro x hx
    rcases List.mem_append.mp hx with hx | hx
    · exact Nat.le_trans (h.grows x hx) hle
    · rw [List.mem_singleton.mp hx]
      exact hle
  · intro s₀ th p data hcall
    rcases List.mem_append.mp hcall with hcall | hcall
    · exact Nat.lt_of_lt_of_le (h.called s₀ th p data hcall) hle
    · cases List.mem_singleton.mp hcall
      cases hstep
      exact Nat.lt_succ_self _
  · intro s₀ th p data hcall hflight
    rcases List.mem_append.mp hcall with hcall | hcall
    · obtain ⟨hbefore, hsame⟩ :=
        hstep.inFlight hok hready (h.called s₀ th p data hcall) hflight
      rw [hsame]
      exact h.kept s₀ th p data hcall hbefore
    · cases List.mem_singleton.mp hcall
      cases hstep
      show (Function.update s.bufs s.nextWrite _ s.nextWrite).data = data
      rw [Function.update_self]
  · intro s₀ th p data hcall s₁ o hloop hcopies
    rcases List.mem_append.mp hcall with hold | hcall
    · rcases List.mem_append.mp hloop with hloop | hloop
      · exact h.copied s₀ th p data hold s₁ o hloop hcopies
      · -- the entry in the hands of the loop is in flight
        cases List.mem_singleton.mp hloop
        have hlen := hok _ hcopies
        rw [chainBytes_charChain, accepted_of_lt hlen]
        exact h.kept s₀ th p data hold hcopies.inFlight
    · cases List.mem_singleton.mp hcall
      rcases List.mem_append.mp hloop with hloop | hloop
      · obtain ⟨front, hfront⟩ := hrun.reachable_of_mem hloop
        have hlt := copies_lt ⟨front, hfront⟩ hcopies
        exact absurd hlt (Nat.not_lt.mpr (h.grows _ hloop))
      · cases List.mem_singleton.mp hloop

theorem run_carries {tr : List (Sys × Act)} (hrun : (bridge cfg).Run tr s)
    (hok : Machine.Meets KeepsPosted tr) : Carries cfg tr s := by
  induction hrun with
  | start =>
      refine ⟨?_, ?_, ?_, ?_⟩
      · intro x hx
        cases hx
      · intro s₀ th p data hcall
        cases hcall
      · intro s₀ th p data hcall
        cases hcall
      · intro s₀ th p data hcall
        cases hcall
  | step hrun hstep ih =>
      obtain ⟨hfront, hlast⟩ := Machine.meets_snoc.mp hok
      have hin := reachable_inOrder hrun.reachable
      exact (ih hfront).step hrun (step_cases hin hstep) hlast

/-- Where no caller changes the buffer of a datagram that `Send` may still copy, and the
lengths fit `u16_t`, every `Send` copies what the buffer held when `Write` was called. -/
theorem run_copiesCalled {tr : List (Sys × Act)} (hrun : (bridge cfg).Run tr s)
    (hok : Machine.Meets KeepsPosted tr) : CopiesCalled cfg tr :=
  (run_carries hrun hok).copied

/-- A caller that uses its buffer again after the `Send`. -/
theorem run_copiesCalled_late : ∃ tr s, (bridge Schedule.config).Run tr s ∧
    .udpCharSendto 0 0 ⟨.v4 2, 53⟩ ⟨.v4 1, 4000⟩ [7] ∈ s.trace ∧ (s.bufs 0).data = [8] ∧
      CopiesCalled Schedule.config tr := by
  obtain ⟨tr, s, hrun, hmeets, htest⟩ := Machine.exists_run_of_exec (bridge Schedule.config)
    (fun s a => match a with
      | .reuse _ _ => (s.loop.inHand ++ s.sendQueue.buf).isEmpty
      | .loop _ => s.loop.inHand.all fun entry => (s.bufs entry.data).data.length < 2 ^ 16
      | _ => true)
    (Schedule.udpOpen ++ Schedule.udpWrite [7] ++
      [.take .send Schedule.fine, .loop Schedule.fine, .loop Schedule.fine, .reuse 0 [8]])
    (fun s => .udpCharSendto 0 0 ⟨.v4 2, 53⟩ ⟨.v4 1, 4000⟩ [7] ∈ s.trace ∧
      (s.bufs 0).data = [8]) (by decide)
  obtain ⟨hsent, hdata⟩ := of_decide_eq_true htest
  refine ⟨tr, s, hrun, hsent, hdata, run_copiesCalled hrun (hmeets.mono ?_)⟩
  intro s a hmet
  cases a with
  | reuse w data =>
      intro p hentry
      rw [List.isEmpty_iff.mp hmet] at hentry
      cases hentry
  | loop o =>
      intro w hcopies
      obtain ⟨p, hhand⟩ := hcopies.inHand
      simpa using List.all_eq_true.mp hmet _ hhand
  | _ => trivial

/-- A caller uses its buffer again as soon as `Write` on a UDP PCB returns. -/
theorem not_copiesCalled_reused : ∃ tr s, (bridge Schedule.config).Run tr s ∧
    .writeRet 0 0 [7] true ∈ s.trace ∧
    .udpCharSendto 0 0 ⟨.v4 2, 53⟩ ⟨.v4 1, 4000⟩ [8] ∈ s.trace ∧
      ¬CopiesCalled Schedule.config tr := by
  obtain ⟨tr, u, v, s, hrun, hcall, hloop, htest⟩ :=
    Machine.exists_run_through (bridge Schedule.config) Schedule.udpOpen
      [.go 0, .go 0, .go 0, .reuse 0 [8], .take .send Schedule.fine, .loop Schedule.fine]
      (.call 0 (.write 0 [7])) (.loop Schedule.fine)
      (fun u v s => .writeRet 0 0 [7] true ∈ s.trace ∧
        .udpCharSendto 0 0 ⟨.v4 2, 53⟩ ⟨.v4 1, 4000⟩ [8] ∈ s.trace ∧
        u.nextWrite = 0 ∧ v.loop = .udpSend ⟨0, 0⟩ ∧ (v.bufs 0).data = [8])
      (by decide)
  obtain ⟨hret, hsent, hnext, hsend, hdata⟩ := of_decide_eq_true htest
  refine ⟨tr, s, hrun, hret, hsent, ?_⟩
  intro hcopies
  have hsame := hcopies u 0 0 [7] hcall v Schedule.fine hloop
    ⟨0, Or.inr (by rw [hsend, hnext])⟩
  rw [hnext, hdata] at hsame
  cases hsame

end LwipCs
