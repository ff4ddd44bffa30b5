import LwipCs.Csocks.Conns
import LwipCs.Csocks.Url

/-!
# Closing a DNS connection

`Close` sets `closed`, closes the queue and then takes the key out of the map.
`proc` looks a connection up, or makes and stores one, and sends on it later. What
is in the map and what a loop is about to send on is open in exactly the runs in
which `Close` takes effect at other times.
-/

namespace LwipCs

namespace Csocks

open Interleave

/-- The connections that can be found or sent on are open, and no send met a closed
channel. -/
structure Sys.AllOpen (s : Sys) : Prop where
  entry : ∀ key c o, s.conns key = some c → s.objs c = some o → o.closed = false
  push : ∀ r q c o, s.loops r = .push q c → s.objs c = some o → o.closed = false
  sent : s.panic ≠ some .sendOnClosed

/-- `Close` sets `closed` of a connection only while it is not in the map and no loop is
at its send, and a connection is stored open. -/
def Timely (s : Sys) : Act → Prop
  | .closeStep t => ∀ c, s.closers t = .mark c →
      (∀ key, s.conns key ≠ some c) ∧ ∀ r q, s.loops r ≠ .push q c
  | .store r => ∀ q c o, s.loops r = .store q c → s.objs c = some o → o.closed = false
  | _ => True

/-- A queue is closed after the flag is set. -/
def FlagFirst (objs : DnsId → Option DNSConn) (closers : Nat → CloserPc) : Prop :=
  (∀ c o, objs c = some o → o.readQueued.closed = true → o.closed = true) ∧
    ∀ t c, closers t = .closeQueue c → ∃ o, objs c = some o ∧ o.closed = true

namespace FlagFirst

variable {objs : DnsId → Option DNSConn} {closers : Nat → CloserPc} {c : DnsId} {o : DNSConn}
variable {pc : CloserPc} {t : Nat}

theorem setConn (h : FlagFirst objs closers) (hchan : o.readQueued.closed = true → o.closed = true)
    (hflag : ∀ x, objs c = some x → x.closed = true → o.closed = true) :
    FlagFirst (Function.update objs c (some o)) closers := by
  constructor
  · intro c' x hx
    by_cases heq : c' = c
    · subst heq
      rw [Function.update_self] at hx
      cases hx
      exact hchan
    · rw [Function.update_of_ne heq] at hx
      exact h.1 c' x hx
  · intro t c' ht
    obtain ⟨x, hx, hclosed⟩ := h.2 t c' ht
    by_cases heq : c' = c
    · subst heq
      exact ⟨o, Function.update_self .., hflag x hx hclosed⟩
    · exact ⟨x, by rwa [Function.update_of_ne heq], hclosed⟩

/-- Only the queue changes. -/
theorem setQueue (h : FlagFirst objs closers) (ho : objs c = some o) {ch : Chan Query}
    (hchan : ch.closed = true → o.closed = true) :
    FlagFirst (Function.update objs c (some { o with readQueued := ch })) closers := by
  refine h.setConn hchan ?_
  intro x hx hclosed
  rw [ho] at hx
  cases hx
  exact hclosed

theorem goto (h : FlagFirst objs closers)
    (hpc : ∀ c, pc = .closeQueue c → ∃ o, objs c = some o ∧ o.closed = true) :
    FlagFirst objs (Function.update closers t pc) := by
  refine ⟨h.1, ?_⟩
  intro t' c ht
  by_cases heq : t' = t
  · subst heq
    rw [Function.update_self] at ht
    exact hpc c ht
  · rw [Function.update_of_ne heq] at ht
    exact h.2 t' c ht

end FlagFirst

variable {lib : Lib} {s t : Sys} {a : Act}

theorem step_flagFirst (hs : s.InOrder) (h : FlagFirst s.objs s.closers) (hstep : Step lib s a t) :
    FlagFirst t.objs t.closers := by
  cases hstep with
  | opened =>
      refine h.setConn nofun ?_
      intro x hx
      exact absurd (hs.made _ x hx).1 (Nat.lt_irrefl _)
  | @pushed r q c o ch _ ho hsend =>
      apply h.setQueue ho
      rw [Chan.closed_of_send hsend]
      exact h.1 c o ho
  | @taken c o q ch ho hrecv =>
      apply h.setQueue ho
      rw [Chan.closed_of_recv hrecv]
      exact h.1 c o ho
  | close => exact h.goto nofun
  | tested => exact h.goto nofun
  | testedClosed => exact h.goto nofun
  | marked _ ho =>
      refine (h.setConn (fun _ => rfl) fun _ _ _ => rfl).goto ?_
      rintro _ ⟨⟩
      exact ⟨_, Function.update_self .., rfl⟩
  | @queueClosed i c o ch hpc ho =>
      obtain ⟨x, hx, hclosed⟩ := h.2 i c hpc
      rw [ho] at hx
      cases hx
      apply (h.setQueue ho fun _ => hclosed).goto
      nofun
  | deleted => exact h.goto nofun
  | _ => exact h

theorem reachable_flagFirst (h : (csocks lib).Reachable s) :
    s.InOrder ∧ FlagFirst s.objs s.closers := by
  refine ⟨reachable_inOrder h, ?_⟩
  refine Machine.Reachable.invariant_of (I := fun s => FlagFirst s.objs s.closers) h
    reachable_inOrder ⟨nofun, nofun⟩ ?_
  intro s a t hs _ hflag hstep
  exact step_flagFirst hs hflag (Sys.step_cases hstep)

/-- `AllOpen` without the panic. -/
structure Opened (loops : ClientId → ProcPc) (objs : DnsId → Option DNSConn)
    (conns : Text → Option DnsId) : Prop where
  entry : ∀ key c o, conns key = some c → objs c = some o → o.closed = false
  push : ∀ r q c o, loops r = .push q c → objs c = some o → o.closed = false

namespace Opened

variable {loops : ClientId → ProcPc} {objs : DnsId → Option DNSConn} {conns : Text → Option DnsId}
variable {r : ClientId} {c : DnsId} {o o' : DNSConn} {key : Text} {pc : ProcPc}

theorem goto (h : Opened loops objs conns)
    (hpc : ∀ q c o, pc = .push q c → objs c = some o → o.closed = false) :
    Opened (Function.update loops r pc) objs conns := by
  refine ⟨h.entry, ?_⟩
  intro r' q c o hr ho
  by_cases heq : r' = r
  · subst heq
    rw [Function.update_self] at hr
    exact hpc q c o hr ho
  · rw [Function.update_of_ne heq] at hr
    exact h.push r' q c o hr ho

/-- What is in the map or about to be sent on must be open after the change. -/
theorem setConn (h : Opened loops objs conns)
    (hentry : ∀ key, conns key = some c → o.closed = false)
    (hpush : ∀ r q, loops r = .push q c → o.closed = false) :
    Opened loops (Function.update objs c (some o)) conns := by
  constructor
  · intro key c' x hc' hx
    by_cases heq : c' = c
    · subst heq
      rw [Function.update_self] at hx
      cases hx
      exact hentry key hc'
    · rw [Function.update_of_ne heq] at hx
      exact h.entry key c' x hc' hx
  · intro r q c' x hr hx
    by_cases heq : c' = c
    · subst heq
      rw [Function.update_self] at hx
      cases hx
      exact hpush r q hr
    · rw [Function.update_of_ne heq] at hx
      exact h.push r q c' x hr hx

/-- Only the queue changes. -/
theorem setQueue (h : Opened loops objs conns) (ho : objs c = some o) (ch : Chan Query) :
    Opened loops (Function.update objs c (some { o with readQueued := ch })) conns :=
  h.setConn (fun key hc => h.entry key c o hc ho) fun r q hr => h.push r q c o hr ho

theorem store (h : Opened loops objs conns) (ho : objs c = some o) (hopen : o.closed = false) :
    Opened loops objs (Function.update conns key (some c)) := by
  refine ⟨?_, h.push⟩
  intro key' c' x hc' hx
  by_cases heq : key' = key
  · subst heq
    rw [Function.update_self] at hc'
    cases hc'
    rw [ho] at hx
    cases hx
    exact hopen
  · rw [Function.update_of_ne heq] at hc'
    exact h.entry key' c' x hc' hx

theorem delete (h : Opened loops objs conns) :
    Opened loops objs (Function.update conns key none) := by
  refine ⟨?_, h.push⟩
  intro key' c' x hc' hx
  by_cases heq : key' = key
  · subst heq
    rw [Function.update_self] at hc'
    cases hc'
  · rw [Function.update_of_ne heq] at hc'
    exact h.entry key' c' x hc' hx

end Opened

theorem Sys.allOpen_iff :
    s.AllOpen ↔ Opened s.loops s.objs s.conns ∧ s.panic ≠ some .sendOnClosed :=
  ⟨fun h => ⟨⟨h.entry, h.push⟩, h.sent⟩, fun h => ⟨h.1.entry, h.1.push, h.2⟩⟩

/-- A timely step of an open state. -/
theorem step_opened (h : Opened s.loops s.objs s.conns) (hok : Timely s a)
    (hstep : Step lib s a t) : Opened t.loops t.objs t.conns := by
  cases hstep with
  | served => exact h.goto nofun
  | ended => exact h.goto nofun
  | received => exact h.goto nofun
  | found => exact h.goto nofun
  | @hit r q target c hpc hentry =>
      apply h.goto
      rintro _ _ o ⟨⟩ ho
      exact h.entry _ c o hentry ho
  | missed => exact h.goto nofun
  | refused => exact h.goto nofun
  | opened => exact (h.setConn (fun _ _ => rfl) fun _ _ _ => rfl).goto nofun
  | failed => exact h.goto nofun
  | returned => exact h.goto nofun
  | @stored r q c o hpc ho =>
      have hopen := hok q c o hpc ho
      apply (h.store ho hopen).goto
      rintro _ _ x ⟨⟩ hx
      rw [ho] at hx
      cases hx
      exact hopen
  | pushed _ ho => exact (h.setQueue ho _).goto nofun
  | taken ho => exact h.setQueue ho _
  | @marked i c o hpc ho =>
      obtain ⟨hmap, hsend⟩ := hok c hpc
      exact h.setConn (fun key hc => absurd hc (hmap key)) fun r q hr => absurd hr (hsend r q)
  | queueClosed _ ho => exact h.setQueue ho _
  | deleted => exact h.delete
  | _ => exact h

/-- A send on a closed channel is a send on a closed connection. -/
theorem step_sent (hflag : FlagFirst s.objs s.closers) (h : s.AllOpen) (hstep : Step lib s a t) :
    t.panic ≠ some .sendOnClosed := by
  cases hstep with
  | @pushClosed r q c o hpc ho hclosed =>
      have hopen := h.push r q c o hpc ho
      rw [hflag.1 c o ho hclosed] at hopen
      cases hopen
  | noQuestion => exact nofun
  | closedTwice => exact nofun
  | _ => exact h.sent

/-- A step to an open state was timely. -/
theorem timely_of_opened (h : Opened t.loops t.objs t.conns) (hstep : Step lib s a t) :
    Timely s a := by
  have other : ∀ {i pc}, s.closers i = pc → (∀ c, pc ≠ .mark c) → Timely s (.closeStep i) := by
    rintro i pc rfl hpc c hc
    exact absurd hc (hpc c)
  cases hstep with
  | @stored r q c o hpc ho =>
      intro q' c' o' hpc' ho'
      rw [hpc] at hpc'
      cases hpc'
      rw [ho] at ho'
      cases ho'
      exact h.entry o.key c o (Function.update_self ..) ho
  | @marked i c o hpc ho =>
      intro c' hc'
      rw [hpc] at hc'
      cases hc'
      constructor
      · intro key hentry
        cases h.entry key c _ hentry (Function.update_self ..)
      · intro r q hr
        cases h.push r q c _ hr (Function.update_self ..)
  | tested hpc => exact other hpc nofun
  | testedClosed hpc => exact other hpc nofun
  | queueClosed hpc => exact other hpc nofun
  | closedTwice hpc => exact other hpc nofun
  | deleted hpc => exact other hpc nofun
  | _ => trivial

/-- The map holds open connections and queries are sent on open ones, all along exactly the
runs in which every close and every store is timely. -/
theorem run_allOpen_iff {tr : List (Sys × Act)} (hrun : (csocks lib).Run tr s) :
    Machine.Always Sys.AllOpen tr s ↔ Machine.Meets Timely tr := by
  refine hrun.always_iff reachable_flagFirst ⟨nofun, nofun, nofun⟩ ?_
  intro s a t hs hopen hstep
  have hcases := Sys.step_cases hstep
  constructor
  · intro ht
    exact timely_of_opened (Sys.allOpen_iff.mp ht).1 hcases
  · intro hok
    exact Sys.allOpen_iff.mpr ⟨step_opened (Sys.allOpen_iff.mp hopen).1 hok hcases,
      step_sent hs.2 hopen hcases⟩

/-- An executable test of `Timely`, for states in order. -/
def timelyTest (s : Sys) : Act → Bool
  | .closeStep t =>
      match s.closers t with
      | .mark c =>
          (s.objs c).all (fun o => s.conns o.key ≠ some c) &&
            (List.range s.nextClient).all fun r =>
              match s.loops r with
              | .push _ c' => c' ≠ c
              | _ => true
      | _ => true
  | .store r =>
      match s.loops r with
      | .store _ c => (s.objs c).all fun o => !o.closed
      | _ => true
  | _ => true

theorem timely_of_test (hs : s.InOrder) (h : timelyTest s a = true) : Timely s a := by
  cases a with
  | closeStep i =>
      intro c hpc
      simp only [timelyTest, hpc, Bool.and_eq_true] at h
      obtain ⟨hmap, hsend⟩ := h
      constructor
      · intro key hkey
        obtain ⟨o, ho, rfl⟩ := hs.entry key c hkey
        simp [ho, hkey] at hmap
      · intro r q hr
        have hlt := hs.started r (by rw [hr]; nofun)
        have hr' := List.all_eq_true.mp hsend r (List.mem_range.mpr hlt)
        simp [hr] at hr'
  | store r =>
      intro q c o hpc ho
      simpa [timelyTest, hpc, ho] using h
  | _ => trivial

/-- The resolver closes a connection it then refuses, and accepts the next one. -/
theorem run_allOpen_close : ∃ tr s, (csocks sampleLib).Run tr s ∧
    Event.queued 1 ⟨1, 0, question⟩ ∈ s.trace ∧ Machine.Always Sys.AllOpen tr s := by
  obtain ⟨tr, s, hrun, hmeets, htest⟩ := Machine.exists_run_of_exec (csocks sampleLib) timelyTest
    [.accept .udp ⟨[1, 1, 1, 1], Or.inl rfl⟩ 53 4096,
      .recv 0 (some question), .target 0 ['d', 'n', 's', ':', '/', '/', 'l'], .lookup 0, .create 0,
      .close 0 0, .closeStep 0, .closeStep 0, .closeStep 0, .closeStep 0, .returned 0 false,
      .recv 0 (some question), .target 0 ['d', 'n', 's', ':', '/', '/', 'l'], .lookup 0, .create 0,
      .returned 0 true, .store 0, .push 0]
    (fun s => Event.queued 1 ⟨1, 0, question⟩ ∈ s.trace) (by decide)
  refine ⟨tr, s, hrun, of_decide_eq_true htest, (run_allOpen_iff hrun).mpr ?_⟩
  intro x hx
  exact timely_of_test (reachable_inOrder (hrun.reachable_of_mem hx)) (hmeets x hx)

/-- The resolver closes the connection after `ProcConn` has returned, before the send. -/
theorem not_allOpen_close : ∃ s, (csocks sampleLib).Reachable s ∧
    s.panic = some .sendOnClosed ∧ ¬s.AllOpen := by
  obtain ⟨tr, s, hrun, _, htest⟩ := Machine.exists_run_of_exec (csocks sampleLib)
    (fun _ _ => true)
    [.accept .udp ⟨[1, 1, 1, 1], Or.inl rfl⟩ 53 4096,
      .recv 0 (some question), .target 0 ['d', 'n', 's', ':', '/', '/', 'l'], .lookup 0, .create 0,
      .returned 0 true, .store 0, .close 0 0, .closeStep 0, .closeStep 0, .closeStep 0, .push 0]
    (fun s => s.panic = some .sendOnClosed) (by decide)
  have hpanic := of_decide_eq_true htest
  exact ⟨s, hrun.reachable, hpanic, fun h => h.sent hpanic⟩

end Csocks

end LwipCs
