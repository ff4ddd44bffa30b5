import LwipCs.Bridge.Handshake

/-!
# The loop waits for the lock of a `Write`

`Write` holds `lck` across its wait for `sendWait`, and `go_tcp_close_h` takes the
same lock on the loop. A FIN or an error callback that arrives while a `Write` has
the lock and no token stops both for good; without such a callback, and with no
`Write` taking the lock while the loop stands before it, the loop never waits for
a `Write`.
-/

namespace LwipCs

open Interleave

/-- A `Write` on `p` has taken the lock and was not handed its token, and `sendWait`
is open. -/
def Unserved (x : PCB) (threads : Tid → Thread) (p : PcbId) : Prop :=
  x.sendWait.closed = false ∧
    ∃ t w, x.lck = some (.goroutine t) ∧
      (threads t = .write p w .enqueue ∨ (threads t = .write p w .wait ∧ x.sendWait.buf = []))

/-- `Unserved` of a state of the system. -/
abbrev Sys.Unserved (s : Sys) (p : PcbId) : Prop := LwipCs.Unserved (s.pcbs p) s.threads p

/-- The loop stands before the lock in `go_tcp_close_h`. -/
def LoopPc.BeforeLock (loop : LoopPc) (p : PcbId) : Prop := ∃ a e k, loop = .close p .lock a e k

/-- The loop waits in `go_tcp_close_h` for a lock whose holder waits for the loop. -/
def Sys.Deadlocked (s : Sys) (p : PcbId) : Prop :=
  s.loop.BeforeLock p ∧
    ∃ t w, (s.pcbs p).lck = some (.goroutine t) ∧ s.threads t = .write p w .wait ∧
      (s.pcbs p).sendWait.recv = .blocked

/-- The PCB that `go_tcp_close_h` closes for the callback: at the peer's FIN and at
an error. -/
def Sys.closes (s : Sys) : Callback → Option PcbId
  | .recv a none _ | .err a => ((s.tpcbs a).bind (·.arg)).bind s.tcpPcbs
  | _ => none

/-- A peer's FIN or an error meets no unserved `Write` of its PCB, and no `Write`
takes a lock the loop stands before. -/
def Sys.Calm (s : Sys) : Act → Prop
  | .callback cb _ => ∀ p, s.closes cb = some p → ¬s.Unserved p
  | .go t => ∀ p w, s.threads t = .write p w .lock → (s.pcbs p).sendWait.closed = false →
      ¬s.loop.BeforeLock p
  | _ => True

/-- A goroutine that is not a `Write` between its lock and its token. -/
def Thread.Served : Thread → Prop
  | .write _ _ .enqueue | .write _ _ .wait => False
  | _ => True

section

variable {pcbs : PcbId → PCB} {threads : Tid → Thread} {p q : PcbId} {x : PCB}

theorem Unserved.of_setThread {t : Tid} {th : Thread}
    (h : Unserved x (Function.update threads t th) p) (hth : th.Served) :
    Unserved x threads p := by
  obtain ⟨hopen, u, w, hlck, hpos⟩ := h
  have hu : u ≠ t := by
    rintro rfl
    rw [Function.update_self] at hpos
    rcases hpos with rfl | ⟨rfl, _⟩ <;> exact hth
  rw [Function.update_of_ne hu] at hpos
  exact ⟨hopen, u, w, hlck, hpos⟩

/-- A `Write` on another PCB does not matter. -/
theorem Unserved.of_setThread_ne {t : Tid} {w : WriteId} {pc : WritePc}
    (h : Unserved x (Function.update threads t (.write q w pc)) p) (hne : q ≠ p) :
    Unserved x threads p := by
  obtain ⟨hopen, u, v, hlck, hpos⟩ := h
  have hu : u ≠ t := by
    rintro rfl
    rw [Function.update_self] at hpos
    rcases hpos with hpos | ⟨hpos, _⟩ <;> cases hpos <;> exact hne rfl
  rw [Function.update_of_ne hu] at hpos
  exact ⟨hopen, u, v, hlck, hpos⟩

theorem Unserved.of_ne (h : Unserved (Function.update pcbs q x p) threads p) (hne : q ≠ p) :
    Unserved (pcbs p) threads p := by
  rwa [Function.update_of_ne hne.symm] at h

theorem Unserved.of_setPcb (h : Unserved (Function.update pcbs q x p) threads p)
    (hlck : x.lck = (pcbs q).lck) (hwait : x.sendWait = (pcbs q).sendWait) :
    Unserved (pcbs p) threads p := by
  by_cases hq : p = q
  · subst hq
    rwa [Function.update_self, Unserved, hlck, hwait] at h
  · rwa [Function.update_of_ne hq] at h

/-- A PCB whose lock is free, or held outside `Write`, has no unserved `Write`. -/
theorem not_unserved (hlck : ∀ t, x.lck = some (.goroutine t) → (threads t).Served) :
    ¬Unserved x threads p := by
  rintro ⟨_, t, w, hown, hpos⟩
  have := hlck t hown
  rcases hpos with hpos | ⟨hpos, _⟩ <;> rw [hpos] at this <;> exact this

end

variable {cfg : Config} {s t : Sys} {o : Outcomes} {p : PcbId}

theorem Sys.Deadlocked.unserved (h : s.Deadlocked p) : s.Unserved p := by
  obtain ⟨_, t, w, hlck, hth, hblocked⟩ := h
  obtain ⟨hbuf, hopen⟩ := Chan.recv_blocked_iff.mp hblocked
  exact ⟨hopen, t, w, hlck, Or.inr ⟨hth, hbuf⟩⟩

theorem ReadStep.unserved {th : Tid} {q : PcbId} {len : Nat} {pc : ReadPc}
    (h : ReadStep s th q len pc t) (ht : t.Unserved p) : s.Unserved p := by
  cases h with
  | intercepted _ => exact ht
  | tooSmall _ _ => exact ht
  | _ => exact ht.of_setThread trivial

theorem WriteStep.unserved {th : Tid} {q : PcbId} {w : WriteId} {pc : WritePc}
    (hth : s.threads th = .write q w pc) (h : WriteStep s th q w pc t) (hlocked : s.Locked)
    (ht : t.Unserved p) :
    s.Unserved p ∨ (q = p ∧ pc = .lock ∧ (s.pcbs p).sendWait.closed = false) := by
  cases h with
  | lock hlck =>
      by_cases hq : q = p
      · subst hq
        refine Or.inr ⟨rfl, rfl, ?_⟩
        have := ht.1
        simpa only [Function.update_self] using this
      · exact Or.inl (.of_setThread_ne (ht.of_ne hq) hq)
  | enqueue _ =>
      by_cases hq : q = p
      · subst hq
        have hown : (s.pcbs q).lck = some (.goroutine th) :=
          hlocked.holder.mp (by rw [hth]; rfl)
        exact Or.inl ⟨ht.1, th, w, hown, Or.inl hth⟩
      · exact Or.inl (.of_setThread_ne ht hq)
  | @wait r ch hrecv =>
      by_cases hq : q = p
      · subst hq
        have hown : (s.pcbs q).lck = some (.goroutine th) :=
          hlocked.holder.mp (by rw [hth]; rfl)
        refine absurd ht (not_unserved ?_)
        intro u hu
        simp only [Function.update_self, hown] at hu
        cases hu
        simp only [Function.update_self]
        trivial
      · exact Or.inl ((ht.of_ne hq).of_setThread trivial)
  | unlock =>
      by_cases hq : q = p
      · subst hq
        refine absurd ht (not_unserved ?_)
        intro u hu
        simp only [Function.update_self] at hu
        cases hu
      · exact Or.inl ((ht.of_ne hq).of_setThread trivial)
  | _ => exact Or.inl (ht.of_setThread trivial)

theorem CloseStep.unserved {who : Actor} {q : PcbId} {pc : ClosePc} {next : Option ClosePc}
    (hpos : inClose s.threads s.loop who = some (q, pc)) (h : CloseStep s who q pc t next)
    (ht : t.Unserved p) : s.Unserved p := by
  have served : ∀ u, who = .goroutine u → (s.threads u).Served := by
    rintro u rfl
    rw [inClose] at hpos
    generalize s.threads u = th at hpos
    cases th with
    | close _ _ => trivial
    | _ => cases hpos
  cases h with
  | lock _ =>
      by_cases hq : q = p
      · subst hq
        refine absurd ht (not_unserved ?_)
        intro u hu
        simp only [Function.update_self] at hu
        exact served u (Option.some.inj hu)
      · exact ht.of_ne hq
  | setErr => exact ht.of_setPcb rfl rfl
  | closeWait _ hclose =>
      by_cases hq : q = p
      · subst hq
        have hopen := ht.1
        simp only [Function.update_self, (Chan.close_done hclose).2.2.2] at hopen
        cases hopen
      · exact ht.of_ne hq
  | unlock =>
      by_cases hq : q = p
      · subst hq
        refine absurd ht (not_unserved ?_)
        intro u hu
        simp only [Function.update_self] at hu
        cases hu
      · exact ht.of_ne hq
  | _ => exact ht

theorem InterceptStep.unserved {th : Tid} {q : PcbId} {c : Nat} {pc : InterPc}
    (h : InterceptStep s th q c pc t) (ht : t.Unserved p) : s.Unserved p := by
  have freed : ∀ {x : PCB} {threads : Tid → Thread}, x.lck = none → q = p →
      ¬LwipCs.Unserved (Function.update s.pcbs q x p) threads p := by
    rintro x threads hx rfl
    refine not_unserved ?_
    intro u hu
    rw [Function.update_self, hx] at hu
    cases hu
  cases h with
  | lock _ =>
      by_cases hq : q = p
      · subst hq
        refine absurd ht (not_unserved ?_)
        intro u hu
        simp only [Function.update_self] at hu
        cases hu
        simp only [Function.update_self]
        trivial
      · exact (ht.of_ne hq).of_setThread trivial
  | twice _ =>
      by_cases hq : q = p
      · exact absurd ht (freed rfl hq)
      · exact (ht.of_ne hq).of_setThread trivial
  | test _ => exact ht.of_setThread trivial
  | set => exact (ht.of_setThread trivial).of_setPcb rfl rfl
  | closeOld _ => exact ht.of_setThread trivial
  | closedOld _ => exact ht
  | swap => exact (ht.of_setThread trivial).of_setPcb rfl rfl
  | unlock =>
      by_cases hq : q = p
      · exact absurd ht (freed rfl hq)
      · exact (ht.of_ne hq).of_setThread trivial

theorem LoopStep.unserved {pc : LoopPc} (hpc : s.loop = pc) (h : LoopStep cfg s o pc t)
    (ht : t.Unserved p) : s.Unserved p := by
  cases h with
  | sendFailed _ _ _ _ _ => exact ht.of_setPcb rfl rfl
  | sendTcp _ _ _ _ _ _ _ => exact ht.of_setPcb rfl rfl
  | @done q a e k ch hsend =>
      obtain ⟨hopen, _, hbuf, _⟩ := Chan.send_done hsend
      by_cases hq : q = p
      · subst hq
        obtain ⟨_, u, w, hlck, hpos⟩ := ht
        simp only [Function.update_self, hbuf] at hlck hpos
        refine ⟨hopen, u, w, hlck, Or.inl ?_⟩
        rcases hpos with hpos | ⟨_, hempty⟩
        · exact hpos
        · simp at hempty
      · exact ht.of_ne hq
  | @close q pc pc' a e k s' hclose =>
      have hpos : inClose s.threads s.loop .loop = some (q, pc) := by
        rw [hpc]
        rfl
      exact hclose.unserved hpos ht
  | @closed q a e k =>
      have hpos : inClose s.threads s.loop .loop = some (q, .unlock) := by
        rw [hpc]
        rfl
      have hclose : CloseStep s .loop q .unlock _ none := .unlock
      exact hclose.unserved hpos ht
  | _ => exact ht

theorem CallbackStep.unserved {cb : Callback} (h : CallbackStep cfg s o cb t)
    (hp : p < s.nextPcb) (ht : t.Unserved p) : s.Unserved p := by
  have hne : s.nextPcb ≠ p := (Nat.ne_of_lt hp).symm
  cases h with
  | accept _ _ => exact ht.of_ne hne
  | sent _ _ _ _ _ _ _ _ => exact ht.of_setPcb rfl rfl
  | udpNew _ _ => exact ht.of_ne hne
  | _ => exact ht

/-- Only a `Write` that takes the lock makes a PCB unserved. -/
theorem Step.unserved {a : Act} (h : Step cfg s a t) (hlocked : s.Locked) (hp : p < s.nextPcb)
    (ht : t.Unserved p) :
    s.Unserved p ∨ ∃ th w, a = .go th ∧ s.threads th = .write p w .lock ∧
      (s.pcbs p).sendWait.closed = false := by
  cases h with
  | callRead _ _ => exact Or.inl (ht.of_setThread trivial)
  | callWrite _ _ => exact Or.inl (ht.of_setThread trivial)
  | callClose _ _ => exact Or.inl (ht.of_setThread trivial)
  | callIntercept _ _ => exact Or.inl (ht.of_setThread trivial)
  | read _ h => exact Or.inl (h.unserved ht)
  | @write th q w pc t hth h =>
      rcases h.unserved hth hlocked ht with hs | ⟨rfl, rfl, hopen⟩
      · exact Or.inl hs
      · exact Or.inr ⟨th, w, rfl, hth, hopen⟩
  | @close th q pc pc' s' hth h =>
      have hpos : inClose s.threads s.loop (.goroutine th) = some (q, pc) := by
        rw [inClose, hth]
        rfl
      exact Or.inl (h.unserved hpos (ht.of_setThread trivial))
  | @closed th q hth =>
      have hpos : inClose s.threads s.loop (.goroutine th) = some (q, .unlock) := by
        rw [inClose, hth]
        rfl
      have hclose : CloseStep s (.goroutine th) q .unlock _ none := .unlock
      exact Or.inl (hclose.unserved hpos (ht.of_setThread trivial))
  | closePost _ _ => exact Or.inl (ht.of_setThread trivial)
  | intercept _ h => exact Or.inl (h.unserved ht)
  | loop hpc h => exact Or.inl (h.unserved hpc ht)
  | callback _ h => exact Or.inl (h.unserved hp ht)
  | _ => exact Or.inl ht

/-! ### The loop before a lock -/

theorem CloseStep.next_ne_lock {who : Actor} {q : PcbId} {pc : ClosePc}
    (h : CloseStep s who q pc t (some .lock)) : False := by
  cases h

theorem LoopStep.beforeLock {pc : LoopPc} (h : LoopStep cfg s o pc t)
    (ht : t.loop.BeforeLock p) : s.loop.BeforeLock p := by
  cases h with
  | sendEmpty _ => exact ht
  | udpSendEmpty _ => exact ht
  | pushClosed _ => exact ht
  | doneClosed _ => exact ht
  | close hclose =>
      obtain ⟨a, e, k, hloop⟩ := ht
      cases hloop
      exact absurd hclose CloseStep.next_ne_lock
  | _ =>
      obtain ⟨a, e, k, hloop⟩ := ht
      cases hloop

theorem CallbackStep.beforeLock {cb : Callback} (h : CallbackStep cfg s o cb t)
    (ht : t.loop.BeforeLock p) : s.loop.BeforeLock p ∨ s.closes cb = some p := by
  cases h with
  | ignored => exact Or.inl ht
  | accept _ _ => exact Or.inl ht
  | assertion => exact Or.inl ht
  | recvEmpty _ _ _ _ _ _ => exact Or.inl ht
  | udpEmpty => exact Or.inl ht
  | @fin a e q x es err ha harg hq _ _ =>
      obtain ⟨_, _, _, hloop⟩ := ht
      cases hloop
      exact Or.inr (by simp [Sys.closes, ha, harg, hq])
  | @err a e q x es ha harg hq _ _ =>
      obtain ⟨_, _, _, hloop⟩ := ht
      cases hloop
      exact Or.inr (by simp [Sys.closes, ha, harg, hq])
  | _ =>
      obtain ⟨a, e, k, hloop⟩ := ht
      cases hloop

/-- Only a FIN or an error callback brings the loop before the lock of a PCB. -/
theorem Step.beforeLock {a : Act} (h : Step cfg s a t) (ht : t.loop.BeforeLock p) :
    s.loop.BeforeLock p ∨ ∃ cb o, a = .callback cb o ∧ s.closes cb = some p := by
  have same : t.loop = s.loop → s.loop.BeforeLock p := by
    intro hloop
    rwa [hloop] at ht
  cases h with
  | read _ h => exact Or.inl (same (by cases h <;> rfl))
  | write _ h => exact Or.inl (same (by cases h <;> rfl))
  | close _ h => exact Or.inl (same (by cases h <;> rfl))
  | intercept _ h => exact Or.inl (same (by cases h <;> rfl))
  | takeRecved _ _ =>
      obtain ⟨_, _, _, hloop⟩ := ht
      cases hloop
  | takeSend _ _ =>
      obtain ⟨_, _, _, hloop⟩ := ht
      cases hloop
  | takeInput _ _ =>
      obtain ⟨_, _, _, hloop⟩ := ht
      cases hloop
  | loop _ h => exact Or.inl (h.beforeLock ht)
  | @callback cb o t _ h =>
      rcases h.beforeLock ht with hs | hcloses
      · exact Or.inl hs
      · exact Or.inr ⟨cb, o, rfl, hcloses⟩
  | _ => exact Or.inl ht

theorem LoopPc.BeforeLock.made (h : s.loop.BeforeLock p) (hknown : s.InUse) : p < s.nextPcb := by
  obtain ⟨a, e, k, hloop⟩ := h
  have := hknown.loop
  rw [hloop] at this
  exact this.1

theorem Sys.InTable.closes_made (h : s.InTable) {cb : Callback} (hcloses : s.closes cb = some p) :
    p < s.nextPcb := by
  have entered : ∀ {a : Ptr}, ((s.tpcbs a).bind (·.arg)).bind s.tcpPcbs = some p →
      p < s.nextPcb := by
    intro a ha
    obtain ⟨e, _, hp⟩ := Option.bind_eq_some_iff.mp ha
    exact (h.known e p hp).1
  cases cb with
  | recv a data err =>
      cases data with
      | none => exact entered hcloses
      | some _ => cases hcloses
  | err a => exact entered hcloses
  | _ => cases hcloses

/-- The loop stands before no lock whose holder is an unserved `Write`. -/
def Sys.Clear (s : Sys) : Prop := ∀ p, s.loop.BeforeLock p → ¬s.Unserved p

/-- A calm step does not bring the loop before the lock of an unserved `Write`. -/
theorem Step.clear {a : Act} (h : Step cfg s a t) (hin : s.InOrder) (hlocked : s.Locked)
    (hcalm : s.Calm a) (hs : s.Clear) : t.Clear := by
  intro p hbefore hunserved
  rcases h.beforeLock hbefore with hsbefore | ⟨cb, o, rfl, hcloses⟩
  · rcases h.unserved hlocked (hsbefore.made hin.known) hunserved with
      hs' | ⟨th, w, rfl, hth, hopen⟩
    · exact hs p hsbefore hs'
    · exact hcalm p w hth hopen hsbefore
  · rcases h.unserved hlocked (hin.table.closes_made hcloses) hunserved with hs' | ⟨th, w, ha, _⟩
    · exact hcalm p hcloses hs'
    · cases ha

/-- In a run of calm steps the loop never waits for a `Write` that waits for it. -/
theorem run_not_deadlocked {tr : List (Sys × Act)} (hrun : (bridge cfg).Run tr s)
    (hcalm : Machine.Meets Sys.Calm tr) (p : PcbId) : ¬s.Deadlocked p := by
  have known : ∀ {s}, (bridge cfg).Reachable s → s.InOrder ∧ s.Locked :=
    fun h => ⟨reachable_inOrder h, reachable_locked h⟩
  have hclear : s.Clear := by
    refine hrun.invariant_under hcalm known ?_ ?_
    · rintro p ⟨_, _, _, hloop⟩
      cases hloop
    · intro s a t hs _ hclear hcalm hstep
      exact (step_cases hs.1 hstep).clear hs.1 hs.2 hcalm hclear
  intro hdead
  exact hclear p hdead.1 hdead.unserved

namespace Schedule

/-- A `Write` that holds its lock when the peer closes has its token, and none takes its lock
while the loop is in `close`. -/
def calm (s : Sys) : Act → Bool
  | .callback cb _ =>
      (s.closes cb).all fun p =>
        match (s.pcbs p).lck with
        | some (.goroutine t) =>
            match s.threads t with
            | .write _ _ .enqueue => false
            | .write _ _ .wait => (s.pcbs p).sendWait.buf ≠ []
            | _ => true
        | _ => true
  | .go t =>
      match s.threads t, s.loop with
      | .write _ _ .lock, .close .. => false
      | _, _ => true
  | _ => true

theorem calm_of_test {s : Sys} {a : Act} (h : calm s a = true) : s.Calm a := by
  cases a with
  | callback cb o =>
      intro p hcloses
      simp only [calm, hcloses, Option.all_some] at h
      rintro ⟨_, t, w, hlck, hth | ⟨hth, hbuf⟩⟩
      · simp [hlck, hth] at h
      · simp [hlck, hth, hbuf] at h
  | go t =>
      rintro p w hth _ ⟨a, e, k, hloop⟩
      simp [calm, hth, hloop] at h
  | _ => trivial

end Schedule

/-- A FIN comes while a `Write` that was handed its token still holds its lock. -/
theorem run_not_deadlocked_fin : ∃ s, (bridge Schedule.config).Reachable s ∧
    s.loop.BeforeLock 0 ∧ (s.pcbs 0).lck = some (.goroutine 0) ∧
      s.threads 0 = .write 0 0 .wait ∧ ¬s.Deadlocked 0 := by
  obtain ⟨tr, s, hrun, hmeets, htest⟩ := Machine.exists_run_of_exec (bridge Schedule.config)
    Schedule.calm
    (Schedule.accept ++ [.loop Schedule.fine] ++ Schedule.write [7] ++
      [.take .send Schedule.fine, .loop Schedule.fine] ++ Schedule.enterLwip ++
        [.callback (.sent 1 1) Schedule.fine, .loop Schedule.fine,
          .callback (.recv 1 none .ok) Schedule.fine])
    (fun s => s.loop = .close 0 .lock 1 2 0 ∧ (s.pcbs 0).lck = some (.goroutine 0) ∧
      s.threads 0 = .write 0 0 .wait) (by decide)
  obtain ⟨hloop, hlck, hth⟩ := of_decide_eq_true htest
  exact ⟨s, hrun.reachable, ⟨1, 2, 0, hloop⟩, hlck, hth,
    run_not_deadlocked hrun (hmeets.mono fun _ _ => Schedule.calm_of_test) 0⟩

/-- A FIN that arrives while a `Write` waits stops the loop and the `Write`. -/
theorem deadlocked_fin : ∃ s, (bridge Schedule.config).Reachable s ∧ s.Deadlocked 0 := by
  obtain ⟨tr, s, hrun, _, htest⟩ := Machine.exists_run_of_exec (bridge Schedule.config)
    (fun _ _ => true)
    (Schedule.accept ++ Schedule.write [7] ++ [.callback (.recv 1 none .ok) Schedule.fine])
    (fun s => s.loop = .close 0 .lock 1 2 0 ∧ (s.pcbs 0).lck = some (.goroutine 0) ∧
      s.threads 0 = .write 0 0 .wait ∧ (s.pcbs 0).sendWait.buf = [] ∧
      (s.pcbs 0).sendWait.closed = false) (by decide)
  obtain ⟨hloop, hlck, hth, hbuf, hopen⟩ := of_decide_eq_true htest
  exact ⟨s, hrun.reachable, ⟨1, 2, 0, hloop⟩, 0, 0, hlck, hth,
    Chan.recv_blocked_iff.mpr ⟨hbuf, hopen⟩⟩

end LwipCs
