import LwipCs.Csocks.Isolation

/-!
# One iteration of `proc`

An iteration starts with a payload that `Read` returned and ends when the loop is at its
`Read` again or has been left. It panics at `msg.Question[0]` on a message without
questions, and at the send on a queue that `DNSConn.Close` has closed; at a full queue it
waits for the resolver.
-/

namespace LwipCs

namespace Csocks

open Interleave

/-- How many statements are left of the iteration. -/
def ProcPc.left : ProcPc → Nat
  | .off | .read => 0
  | .push .. => 1
  | .store .. => 2
  | .calling .. => 3
  | .create .. => 4
  | .lookup .. => 5
  | .target .. => 6

/-- A statement of the loop of a client, with what `Target` and `Next.ProcConn` answer. -/
def Act.loop : Act → Option ClientId
  | .target r _ | .lookup r | .create r | .returned r _ | .store r | .push r => some r
  | _ => none

/-- No iteration has panicked. One that is under way can go on, waiting for nobody but `Target` and
`Next.ProcConn`, and each of its statements brings it closer to its end and does not panic. -/
structure Sys.ProcSafe (lib : Lib) (s : Sys) : Prop where
  question : s.panic ≠ some .indexOutOfRange
  queue : s.panic ≠ some .sendOnClosed
  goes : s.panic = none → ∀ r q, (s.loops r).query = some q →
    ∃ a t, a.loop = some r ∧ s.step lib a = some t
  ends : ∀ r q, (s.loops r).query = some q → ∀ a t, a.loop = some r → s.step lib a = some t →
    (t.loops r).left < (s.loops r).left ∧ t.panic = none

/-- The iteration of `r` ends in a step from `s` to `t`: its payload is queued or dropped, or the
loop is left. -/
def Outcome (s t : Sys) (r : ClientId) : Prop :=
  (∃ q c, s.loops r = .push q c ∧ t.loops r = .read ∧ t.trace = s.trace ++ [.queued c q]) ∨
    (∃ q, (s.loops r).query = some q ∧ t.loops r = .read ∧ t.trace = s.trace) ∨
    (s.loops r = .read ∧ t.loops r = .off)

/-- Every iteration that ends in the step has an outcome. -/
def Concludes (lib : Lib) (s : Sys) (a : Act) : Prop :=
  ∀ t r, s.step lib a = some t → s.loops r ≠ .off → t.loops r ≠ s.loops r →
    (t.loops r).query = none → Outcome s t r

/-- The queue is open and has room. -/
def DNSConn.Ready (o : DNSConn) : Prop :=
  o.readQueued.closed = false ∧ o.readQueued.buf.length < o.readQueued.cap

instance (o : DNSConn) : Decidable o.Ready := inferInstanceAs (Decidable (_ ∧ _))

/-- A message has a question. A connection is ready where a loop finds it in the map or stores it,
and `Close` does not close its queue while a loop is at its send. -/
def Answerable (lib : Lib) (s : Sys) : Act → Prop
  | .recv _ (some buf) => ∀ msg, lib.unpack buf = some msg → msg.question ≠ []
  | .lookup r => ∀ q target c o, s.loops r = .lookup q target →
      s.conns (connKey (s.addr r) target) = some c → s.objs c = some o → o.Ready
  | .store r => ∀ q c o, s.loops r = .store q c → s.objs c = some o → o.Ready
  | .closeStep i => ∀ c, s.closers i = .closeQueue c → ∀ r q, s.loops r ≠ .push q c
  | _ => True

variable {lib : Lib} {s t : Sys} {a : Act} {r : ClientId} {q : Query}

/-- A loop elsewhere. -/
theorem eq_of_loops_ne {loops : ClientId → ProcPc} {i : ClientId} {pc : ProcPc}
    (h : Function.update loops i pc r ≠ loops r) : r = i := by
  by_contra hne
  exact h (Function.update_of_ne hne ..)

theorem step_concludes (hs : s.InOrder) (a : Act) : Concludes lib s a := by
  intro t r hstep hon hmoves hend
  cases Sys.step_cases hstep with
  | served hroute hfree =>
      obtain rfl := eq_of_loops_ne hmoves
      exact absurd (hs.started _ hon) (Nat.lt_irrefl _)
  | ended hpc =>
      obtain rfl := eq_of_loops_ne hmoves
      exact Or.inr (Or.inr ⟨hpc, Function.update_self ..⟩)
  | received =>
      obtain rfl := eq_of_loops_ne hmoves
      simp [ProcPc.query] at hend
  | found =>
      obtain rfl := eq_of_loops_ne hmoves
      simp [ProcPc.query] at hend
  | hit =>
      obtain rfl := eq_of_loops_ne hmoves
      simp [ProcPc.query] at hend
  | missed =>
      obtain rfl := eq_of_loops_ne hmoves
      simp [ProcPc.query] at hend
  | refused hpc =>
      obtain rfl := eq_of_loops_ne hmoves
      exact Or.inr (Or.inl ⟨_, by rw [hpc]; rfl, Function.update_self .., rfl⟩)
  | opened =>
      obtain rfl := eq_of_loops_ne hmoves
      simp [ProcPc.query] at hend
  | failed hpc =>
      obtain rfl := eq_of_loops_ne hmoves
      exact Or.inr (Or.inl ⟨_, by rw [hpc]; rfl, Function.update_self .., rfl⟩)
  | returned =>
      obtain rfl := eq_of_loops_ne hmoves
      simp [ProcPc.query] at hend
  | stored =>
      obtain rfl := eq_of_loops_ne hmoves
      simp [ProcPc.query] at hend
  | pushed hpc =>
      obtain rfl := eq_of_loops_ne hmoves
      exact Or.inl ⟨_, _, hpc, Function.update_self .., rfl⟩
  | _ => exact absurd rfl hmoves

theorem DNSConn.ready_iff {o : DNSConn} : o.Ready ↔ ∃ ch, o.readQueued.send q = .done ch := by
  constructor
  · rintro ⟨hopen, hroom⟩
    exact Chan.send_of_room hopen hroom
  · rintro ⟨ch, hsend⟩
    obtain ⟨hopen, hroom, _⟩ := Chan.send_done hsend
    exact ⟨hopen, hroom⟩

/-! ### Going on -/

theorem create_goes (lib : Lib) {target : Text} (hpc : s.loops r = .create q target) :
    ∃ (u : Sys) (pc : ProcPc), s.create lib r = some (u.setLoop r pc) ∧ pc.left < 4 := by
  simp only [Sys.create, hpc]
  split
  · exact ⟨s, .read, rfl, by simp [ProcPc.left]⟩
  · exact ⟨_, .calling q s.nextConn, rfl, by simp [ProcPc.left]⟩

/-- The queues of the connections that loops are about to send on are ready. -/
def Pushes (loops : ClientId → ProcPc) (objs : DnsId → Option DNSConn) : Prop :=
  ∀ r q c o, loops r = .push q c → objs c = some o → o.Ready

/-- The next statement of an iteration can be performed, where its queue is ready. -/
theorem iteration_goes (hs : s.InOrder) (hpushes : Pushes s.loops s.objs) (halive : s.panic = none)
    (hq : (s.loops r).query = some q) : ∃ a t, a.loop = some r ∧ s.step lib a = some t := by
  have goes : ∀ {a t}, a.loop = some r → s.act lib a = some t →
      ∃ a t, a.loop = some r ∧ s.step lib a = some t := by
    intro a t hloop hact
    refine ⟨a, t, hloop, ?_⟩
    simpa only [Sys.step, halive] using hact
  cases hpc : s.loops r with
  | off =>
      rw [hpc] at hq
      cases hq
  | read =>
      rw [hpc] at hq
      cases hq
  | target q name =>
      have hact : s.act lib (.target r []) =
          some ((s.emit (.found q name [])).setLoop r (.lookup q [])) := by
        simp only [Sys.act, Sys.target, hpc]
      exact goes rfl hact
  | lookup q target =>
      cases hentry : s.conns (connKey (s.addr r) target) with
      | some c =>
          have hact : s.act lib (.lookup r) = some (s.setLoop r (.push q c)) := by
            simp only [Sys.act, Sys.lookup, hpc, hentry]
          exact goes rfl hact
      | none =>
          have hact : s.act lib (.lookup r) = some (s.setLoop r (.create q target)) := by
            simp only [Sys.act, Sys.lookup, hpc, hentry]
          exact goes rfl hact
  | create q target =>
      obtain ⟨u, pc, hcreate, _⟩ := create_goes lib hpc
      exact goes (a := .create r) rfl hcreate
  | calling q c =>
      have hact : s.act lib (.returned r true) = some (s.setLoop r (.store q c)) := by
        simp only [Sys.act, Sys.returned, hpc, if_true]
      exact goes rfl hact
  | store q c =>
      obtain ⟨o, ho, _⟩ := hs.held r c (by rw [hpc]; rfl)
      have hact : s.act lib (.store r) =
          some ((s.setEntry o.key (some c)).setLoop r (.push q c)) := by
        simp only [Sys.act, Sys.store, hpc, ho, Option.map_some]
      exact goes rfl hact
  | push q c =>
      obtain ⟨o, ho, _⟩ := hs.held r c (by rw [hpc]; rfl)
      have hready := hpushes r q c o hpc ho
      obtain ⟨ch, hsend⟩ : ∃ ch, o.readQueued.send q = .done ch := DNSConn.ready_iff.mp hready
      have hact : s.act lib (.push r) = some
          (((s.setConn c { o with readQueued := ch }).emit (.queued c q)).setLoop r .read) := by
        simp only [Sys.act, Sys.push, hpc, ho, Option.bind_some, hsend]
      exact goes rfl hact

/-- A statement of an iteration leaves fewer, where its queue is ready. -/
theorem iteration_left (hpushes : Pushes s.loops s.objs) (halive : s.panic = none)
    (hloop : a.loop = some r) (hstep : Step lib s a t) :
    (t.loops r).left < (s.loops r).left ∧ t.panic = none := by
  have goto : ∀ {pc pc' : ProcPc}, s.loops r = pc → pc'.left < pc.left →
      (Function.update s.loops r pc' r).left < (s.loops r).left ∧ s.panic = none := by
    rintro pc pc' rfl hless
    rw [Function.update_self]
    exact ⟨hless, halive⟩
  cases hstep with
  | found hpc =>
      cases hloop
      exact goto hpc (by simp [ProcPc.left])
  | hit hpc _ =>
      cases hloop
      exact goto hpc (by simp [ProcPc.left])
  | missed hpc _ =>
      cases hloop
      exact goto hpc (by simp [ProcPc.left])
  | refused hpc =>
      cases hloop
      exact goto hpc (by simp [ProcPc.left])
  | opened hpc _ =>
      cases hloop
      exact goto hpc (by simp [ProcPc.left])
  | failed hpc =>
      cases hloop
      exact goto hpc (by simp [ProcPc.left])
  | returned hpc =>
      cases hloop
      exact goto hpc (by simp [ProcPc.left])
  | stored hpc _ =>
      cases hloop
      exact goto hpc (by simp [ProcPc.left])
  | pushed hpc _ _ =>
      cases hloop
      exact goto hpc (by simp [ProcPc.left])
  | pushClosed hpc ho hclosed =>
      rw [(hpushes _ _ _ _ hpc ho).1] at hclosed
      cases hclosed
  | _ => cases hloop

/-- An iteration at its send goes on exactly if its queue is ready. -/
theorem Sys.ProcSafe.pushes (h : s.ProcSafe lib) (halive : s.panic = none) :
    Pushes s.loops s.objs := by
  intro r q c o hpc ho
  have hq : (s.loops r).query = some q := by
    rw [hpc]
    rfl
  obtain ⟨a, t, hloop, hstep⟩ := h.goes halive r q hq
  have hends := (h.ends r q hq a t hloop hstep).2
  have hcases := Sys.step_cases hstep
  cases hcases with
  | pushed hpc' ho' hsend =>
      cases hloop
      cases hpc.symm.trans hpc'
      cases ho.symm.trans ho'
      exact DNSConn.ready_iff.mpr ⟨_, hsend⟩
  | pushClosed _ _ _ => cases hends
  | found hpc' =>
      cases hloop
      cases hpc.symm.trans hpc'
  | hit hpc' _ =>
      cases hloop
      cases hpc.symm.trans hpc'
  | missed hpc' _ =>
      cases hloop
      cases hpc.symm.trans hpc'
  | refused hpc' =>
      cases hloop
      cases hpc.symm.trans hpc'
  | opened hpc' _ =>
      cases hloop
      cases hpc.symm.trans hpc'
  | failed hpc' =>
      cases hloop
      cases hpc.symm.trans hpc'
  | returned hpc' =>
      cases hloop
      cases hpc.symm.trans hpc'
  | stored hpc' _ =>
      cases hloop
      cases hpc.symm.trans hpc'
  | _ => cases hloop

theorem procSafe_iff (hs : s.InOrder) (halive : s.panic = none) :
    s.ProcSafe lib ↔ Pushes s.loops s.objs := by
  refine ⟨fun h => h.pushes halive, fun hpushes => ⟨?_, ?_, ?_, ?_⟩⟩
  · simp [halive]
  · simp [halive]
  · exact fun _ r q hq => iteration_goes hs hpushes halive hq
  · intro r q _ a t hloop hstep
    exact iteration_left hpushes halive hloop (Sys.step_cases hstep)

/-- A process that has panicked elsewhere takes no step. -/
theorem procSafe_of_panic (hpanic : s.panic = some .closeOfClosed) : s.ProcSafe lib := by
  refine ⟨by simp [hpanic], by simp [hpanic], by simp [hpanic], ?_⟩
  intro r q _ a t _ hstep
  rw [(Sys.alive_of_step hstep).1] at hpanic
  cases hpanic

namespace Pushes

variable {loops : ClientId → ProcPc} {objs : DnsId → Option DNSConn} {c : DnsId} {o : DNSConn}
variable {pc : ProcPc}

theorem goto (h : Pushes loops objs)
    (hpc : ∀ q c o, pc = .push q c → objs c = some o → o.Ready) :
    Pushes (Function.update loops r pc) objs := by
  intro r' q c o hr ho
  by_cases heq : r' = r
  · subst heq
    rw [Function.update_self] at hr
    exact hpc q c o hr ho
  · rw [Function.update_of_ne heq] at hr
    exact h r' q c o hr ho

theorem setConn (h : Pushes loops objs) (ho : ∀ r q, loops r = .push q c → o.Ready) :
    Pushes loops (Function.update objs c (some o)) := by
  intro r q c' x hr hx
  by_cases heq : c' = c
  · subst heq
    rw [Function.update_self] at hx
    cases hx
    exact ho r q hr
  · rw [Function.update_of_ne heq] at hx
    exact h r q c' x hr hx

end Pushes

/-- Where a loop goes to its send it finds the connection ready, and nothing closes or fills the
queue until it sends. -/
theorem step_pushes (hs : s.InOrder) (h : Pushes s.loops s.objs) (hstep : Step lib s a t)
    (hok : Answerable lib s a) : Pushes t.loops t.objs := by
  cases hstep with
  | served => exact h.goto nofun
  | ended => exact h.goto nofun
  | received => exact h.goto nofun
  | found => exact h.goto nofun
  | hit hpc hentry =>
      apply h.goto
      rintro _ _ o ⟨⟩ ho
      exact hok _ _ _ o hpc hentry ho
  | missed => exact h.goto nofun
  | refused => exact h.goto nofun
  | @opened r q _ _ _ _ =>
      have hcalling : Pushes (Function.update s.loops r (.calling q s.nextConn)) s.objs :=
        h.goto nofun
      exact hcalling.setConn fun _ _ _ => ⟨rfl, by simp [newDNSConn]⟩
  | failed => exact h.goto nofun
  | returned => exact h.goto nofun
  | stored hpc ho =>
      apply h.goto
      rintro _ _ o ⟨⟩ ho'
      exact hok _ _ o hpc ho'
  | @pushed r q c o ch hpc ho hsend =>
      -- no other loop holds the connection
      intro r' q' c' x hr hx
      by_cases hr' : r' = r
      · subst hr'
        have hread : Function.update s.loops r' .read r' = .push q' c' := hr
        rw [Function.update_self] at hread
        cases hread
      · have hpush : s.loops r' = .push q' c' := (Function.update_of_ne hr' ..).symm.trans hr
        have hne : c' ≠ c := by
          rintro rfl
          obtain ⟨y, hy, hbase⟩ := hs.held r' c' (by rw [hpush]; rfl)
          obtain ⟨z, hz, hbase'⟩ := hs.held r c' (by rw [hpc]; rfl)
          rw [hy] at hz
          cases hz
          exact hr' (hbase.symm.trans hbase')
        exact h r' q' c' x hpush ((Function.update_of_ne hne ..).symm.trans hx)
  | @taken c o q ch ho hrecv =>
      refine h.setConn fun r q' hr => ?_
      obtain ⟨hopen, hroom⟩ := h r q' c o hr ho
      obtain ⟨hbuf, hcap, hclosed⟩ := Chan.recv_some hrecv
      refine ⟨hclosed.trans hopen, ?_⟩
      rw [hbuf, List.length_cons] at hroom
      show ch.buf.length < ch.cap
      omega
  | @marked i c o _ ho => exact h.setConn fun r q hr => h r q c o hr ho
  | queueClosed hpc _ _ => exact h.setConn fun r q hr => absurd hr (hok _ hpc r q)
  | _ => exact h

theorem safe_of_answerable (hs : s.InOrder) (ht : t.InOrder) (halive : s.panic = none)
    (h : s.ProcSafe lib) (hok : Answerable lib s a) (hstep : Step lib s a t) : t.ProcSafe lib := by
  have hpushes := h.pushes halive
  by_cases hrunning : t.panic = none
  · exact (procSafe_iff ht hrunning).mpr (step_pushes hs hpushes hstep hok)
  · cases hstep with
    | noQuestion hpc hmsg hempty => exact absurd hempty (hok _ hmsg)
    | pushClosed hpc ho hclosed =>
        rw [(hpushes _ _ _ _ hpc ho).1] at hclosed
        cases hclosed
    | closedTwice => exact procSafe_of_panic rfl
    | _ => exact absurd halive hrunning

theorem answerable_of_safe (halive : s.panic = none) (h : s.ProcSafe lib) (ht : t.ProcSafe lib)
    (hstep : Step lib s a t) : Answerable lib s a := by
  have hpushes := h.pushes halive
  cases hstep with
  | @ended r data hpc hbad =>
      cases data with
      | none => trivial
      | some buf =>
          intro msg hmsg
          rw [hbad buf rfl] at hmsg
          cases hmsg
  | noQuestion => exact absurd rfl ht.question
  | received hpc hlen hmsg hname =>
      intro msg hmsg'
      rw [hmsg] at hmsg'
      cases hmsg'
      simp [hname]
  | hit hpc hentry =>
      intro q target c o hpc' hentry' ho
      cases hpc.symm.trans hpc'
      cases hentry.symm.trans hentry'
      exact ht.pushes halive _ _ _ o (Function.update_self ..) ho
  | missed hpc hentry =>
      intro q target c o hpc' hentry' _
      cases hpc.symm.trans hpc'
      cases hentry.symm.trans hentry'
  | stored hpc _ =>
      intro q c o hpc' ho
      cases hpc.symm.trans hpc'
      exact ht.pushes halive _ _ _ o (Function.update_self ..) ho
  | tested hpc _ _ =>
      intro c hpc'
      cases hpc.symm.trans hpc'
  | testedClosed hpc =>
      intro c hpc'
      cases hpc.symm.trans hpc'
  | marked hpc _ =>
      intro c hpc'
      cases hpc.symm.trans hpc'
  | deleted hpc _ =>
      intro c hpc'
      cases hpc.symm.trans hpc'
  | @queueClosed i c o ch hpc ho hclose =>
      intro c' hpc' r q hr
      cases hpc.symm.trans hpc'
      have hopen := (ht.pushes halive r q c _ hr (Function.update_self ..)).1
      rw [(Chan.close_done hclose).2.2.2] at hopen
      cases hopen
  | @closedTwice i c o hpc ho hclosed =>
      intro c' hpc' r q hr
      cases hpc.symm.trans hpc'
      rw [(hpushes r q c _ hr ho).1] at hclosed
      cases hclosed
  | _ => trivial

/-- Every iteration of every loop completes without a panic and without waiting for the resolver,
with its payload queued, dropped or ending the loop, exactly if every decoded message has a question
and `Close` and the resolver leave the connections ready that the loops go on to send on. -/
theorem run_procSafe_iff {tr : List (Sys × Act)} (hrun : (csocks lib).Run tr s) :
    Machine.Always (Sys.ProcSafe lib) tr s ∧ Machine.Meets (Concludes lib) tr ↔
      Machine.Meets (Answerable lib) tr := by
  have hends : Machine.Meets (Concludes lib) tr := by
    intro x hx
    exact step_concludes (reachable_inOrder (hrun.reachable_of_mem hx)) x.2
  rw [and_iff_left hends]
  refine hrun.always_iff (fun h => reachable_inOrder h) ?_ ?_
  · exact (procSafe_iff (reachable_inOrder (Machine.Run.start (M := csocks lib)).reachable) rfl).mpr
      nofun
  · intro s a t hs hsafe hstep
    have hcases := Sys.step_cases hstep
    have halive := (Sys.alive_of_step hstep).1
    exact ⟨fun h => answerable_of_safe halive hsafe h hcases,
      fun hok => safe_of_answerable hs (step_inOrder hs hcases) halive hsafe hok hcases⟩

/-- A message that ends after its header. -/
def header : Bytes := [0, 1, 1, 0, 0, 0, 0, 0, 0, 0, 0, 0]

/-- The functions of `sampleLib`, which also decode the header. -/
def headerLib : Lib := { sampleLib with
  unpack := fun p => if p = header then some ⟨[], []⟩ else sampleLib.unpack p }

/-- An executable test of `Answerable`, for states in order. -/
def answerableTest (lib : Lib) (s : Sys) : Act → Bool
  | .recv _ (some buf) => (lib.unpack buf).all fun msg => msg.question ≠ []
  | .lookup r =>
      match s.loops r with
      | .lookup _ target =>
          ((s.conns (connKey (s.addr r) target)).bind s.objs).all fun o => o.Ready
      | _ => true
  | .store r =>
      match s.loops r with
      | .store _ c => (s.objs c).all fun o => o.Ready
      | _ => true
  | .closeStep i =>
      match s.closers i with
      | .closeQueue c =>
          (List.range s.nextClient).all fun r =>
            match s.loops r with
            | .push _ c' => c' ≠ c
            | _ => true
      | _ => true
  | _ => true

theorem answerable_of_test (hs : s.InOrder) (h : answerableTest lib s a = true) :
    Answerable lib s a := by
  cases a with
  | recv r data =>
      cases data with
      | none => trivial
      | some buf =>
          intro msg hmsg
          simpa [answerableTest, hmsg] using h
  | lookup r =>
      intro q target c o hpc hentry ho
      simpa [answerableTest, hpc, hentry, ho] using h
  | store r =>
      intro q c o hpc ho
      simpa [answerableTest, hpc, ho] using h
  | closeStep i =>
      intro c hpc r q hr
      simp only [answerableTest, hpc] at h
      have hlt := hs.started r (by rw [hr]; nofun)
      have hr' := List.all_eq_true.mp h r (List.mem_range.mpr hlt)
      simp [hr] at hr'
  | _ => trivial

/-- A query is queued, another goes to the same connection, which is then closed, a third is
dropped, and an undecodable payload ends the loop. -/
theorem run_procSafe_outcomes : ∃ tr s, (csocks headerLib).Run tr s ∧
    Event.queued 0 ⟨0, 0, question⟩ ∈ s.trace ∧ Event.queued 0 ⟨1, 0, question⟩ ∈ s.trace ∧
      (s.objs 0).map DNSConn.closed = some true ∧ s.loops 0 = .off ∧
        Machine.Always (Sys.ProcSafe headerLib) tr s ∧ Machine.Meets (Concludes headerLib) tr := by
  obtain ⟨tr, s, hrun, hmeets, htest⟩ := Machine.exists_run_of_exec (csocks headerLib)
    (answerableTest headerLib)
    [.accept .udp ⟨[1, 1, 1, 1], Or.inl rfl⟩ 53 4096,
      .recv 0 (some question), .target 0 ['d', 'n', 's', ':', '/', '/', 'l'], .lookup 0, .create 0,
      .returned 0 true, .store 0, .push 0,
      .recv 0 (some question), .target 0 ['d', 'n', 's', ':', '/', '/', 'l'], .lookup 0, .push 0,
      .close 0 0, .closeStep 0, .closeStep 0, .closeStep 0, .closeStep 0,
      .recv 0 (some question), .target 0 ['d', 'n', 's', ':', '/', '/', 'p'], .lookup 0, .create 0,
      .returned 0 false, .recv 0 (some [])]
    (fun s => Event.queued 0 ⟨0, 0, question⟩ ∈ s.trace ∧
      Event.queued 0 ⟨1, 0, question⟩ ∈ s.trace ∧
      (s.objs 0).map DNSConn.closed = some true ∧ s.loops 0 = .off) (by decide)
  obtain ⟨hfirst, hsecond, hclosed, hoff⟩ := of_decide_eq_true htest
  refine ⟨tr, s, hrun, hfirst, hsecond, hclosed, hoff, (run_procSafe_iff hrun).mpr ?_⟩
  intro x hx
  exact answerable_of_test (reachable_inOrder (hrun.reachable_of_mem hx)) (hmeets x hx)

/-- A message with no question is indexed. -/
theorem not_procSafe_header : ∃ s, (csocks headerLib).Reachable s ∧
    s.panic = some .indexOutOfRange ∧ ¬s.ProcSafe headerLib := by
  obtain ⟨tr, s, hrun, _, htest⟩ := Machine.exists_run_of_exec (csocks headerLib)
    (fun _ _ => true)
    [.accept .udp ⟨[1, 1, 1, 1], Or.inl rfl⟩ 53 4096, .recv 0 (some header)]
    (fun s => s.panic = some .indexOutOfRange) (by decide)
  have hpanic := of_decide_eq_true htest
  exact ⟨s, hrun.reachable, hpanic, fun h => h.question hpanic⟩

end Csocks

end LwipCs
