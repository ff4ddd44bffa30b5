import LwipCs.Bridge.CloseOnce

/-!
# A closed PCB wakes its waiters

`PCB.close` sets `err` and closes `sendWait` under one hold of the lock. So where no
caller is between the two, a TCP PCB whose `err` is set has `sendWait` closed.
-/

namespace LwipCs

open Interleave

/-- Places between the setting of `err` and the close of `sendWait`. -/
def ClosePc.shutting : ClosePc → Bool
  | .closeRecv | .closeWait => true
  | _ => false

/-- `sendWait` of a closed TCP PCB is closed, or about to be. -/
def Shut (nextPcb : PcbId) (pcbs : PcbId → PCB) (pos : Actor → Option (PcbId × ClosePc)) : Prop :=
  ∀ p, Made nextPcb pcbs .tcp p → (pcbs p).err = true →
    (pcbs p).sendWait.closed = true ∨ ∃ who pc, pos who = some (p, pc) ∧ pc.shutting = true

/-- `Shut` of a state of the system. -/
abbrev Sys.InShut (s : Sys) : Prop := Shut s.nextPcb s.pcbs (inClose s.threads s.loop)

namespace Shut

variable {nextPcb : PcbId} {pcbs : PcbId → PCB} {threads : Tid → Thread} {loop : LoopPc}
variable {pos : Actor → Option (PcbId × ClosePc)}

theorem setPcb (h : Shut nextPcb pcbs pos) {p : PcbId} {x : PCB}
    (htype : x.type = (pcbs p).type := by rfl) (herr : x.err = (pcbs p).err := by rfl)
    (hwait : (pcbs p).sendWait.closed = true → x.sendWait.closed = true := by exact id) :
    Shut nextPcb (Function.update pcbs p x) pos := by
  rintro q ⟨hlt, hqtype⟩ hqerr
  by_cases hq : q = p
  · subst hq
    rw [Function.update_self] at hqtype hqerr ⊢
    rcases h q ⟨hlt, htype ▸ hqtype⟩ (herr ▸ hqerr) with hclosed | hwho
    · exact Or.inl (hwait hclosed)
    · exact Or.inr hwho
  · rw [Function.update_of_ne hq] at hqtype hqerr ⊢
    exact h q ⟨hlt, hqtype⟩ hqerr

theorem newPcb (h : Shut nextPcb pcbs pos) {x : PCB} (hopen : x.err = false) :
    Shut (nextPcb + 1) (Function.update pcbs nextPcb x) pos := by
  rintro q ⟨hlt, hqtype⟩ hqerr
  by_cases hq : q = nextPcb
  · subst hq
    rw [Function.update_self, hopen] at hqerr
    cases hqerr
  · rw [Function.update_of_ne hq] at hqtype hqerr ⊢
    exact h q ⟨Nat.lt_of_le_of_ne (Nat.le_of_lt_succ hlt) hq, hqtype⟩ hqerr

/-- An actor leaves a place outside the closing part. -/
theorem move (h : Shut nextPcb pcbs pos) {who : Actor} {place : Option (PcbId × ClosePc)}
    (hold : ∀ p pc, pos who = some (p, pc) → pc.shutting = false) :
    Shut nextPcb pcbs (Function.update pos who place) := by
  intro p hp herr
  rcases h p hp herr with hclosed | ⟨who', pc, hpos, hpc⟩
  · exact Or.inl hclosed
  · refine Or.inr ⟨who', pc, ?_, hpc⟩
    have hne : who' ≠ who := by
      rintro rfl
      rw [hold p pc hpos] at hpc
      cases hpc
    rw [Function.update_of_ne hne]
    exact hpos

theorem setThread (h : Shut nextPcb pcbs (inClose threads loop)) {t : Tid} {th : Thread}
    (hold : (threads t).inClose = none) :
    Shut nextPcb pcbs (inClose (Function.update threads t th) loop) := by
  rw [inClose_setThread]
  refine h.move ?_
  intro p pc hpos
  rw [inClose, hold] at hpos
  cases hpos

theorem goto (h : Shut nextPcb pcbs (inClose threads loop)) {pc : LoopPc}
    (hold : loop.inClose = none) : Shut nextPcb pcbs (inClose threads pc) := by
  rw [inClose_goto loop]
  refine h.move ?_
  intro p c hpos
  rw [inClose, hold] at hpos
  cases hpos

/-- A caller of `close` goes on in its PCB, which is then shut or about to be. -/
theorem proceed (h : Shut nextPcb pcbs pos) {who : Actor} {p : PcbId} {x : PCB} {pc next : ClosePc}
    (hpos : pos who = some (p, pc)) (htype : x.type = (pcbs p).type)
    (hshut : x.type = .tcp → x.err = true → x.sendWait.closed = true ∨ next.shutting = true) :
    Shut nextPcb (Function.update pcbs p x) (Function.update pos who (some (p, next))) := by
  rintro q ⟨hlt, hqtype⟩ hqerr
  by_cases hq : q = p
  · subst hq
    rw [Function.update_self] at hqtype hqerr ⊢
    rcases hshut hqtype hqerr with hclosed | hnext
    · exact Or.inl hclosed
    · exact Or.inr ⟨who, next, Function.update_self .., hnext⟩
  · rw [Function.update_of_ne hq] at hqtype hqerr ⊢
    rcases h q ⟨hlt, hqtype⟩ hqerr with hclosed | ⟨who', c, hwho, hc⟩
    · exact Or.inl hclosed
    · refine Or.inr ⟨who', c, ?_, hc⟩
      have hne : who' ≠ who := by
        rintro rfl
        rw [hpos] at hwho
        cases hwho
        exact hq rfl
      rw [Function.update_of_ne hne]
      exact hwho

end Shut

variable {cfg : Config} {s t : Sys} {o : Outcomes}

theorem CloseStep.shut {who : Actor} {p : PcbId} {pc : ClosePc} {next : Option ClosePc}
    {pos : Actor → Option (PcbId × ClosePc)} (h : CloseStep s who p pc t next)
    (hs : Shut s.nextPcb s.pcbs pos) (hpos : pos who = some (p, pc)) :
    Shut t.nextPcb t.pcbs (Function.update pos who (next.map (p, ·))) := by
  have outside : pc.shutting = false →
      ∀ q c, pos who = some (q, c) → c.shutting = false := by
    intro hpc q c hq
    rw [hpos] at hq
    cases hq
    exact hpc
  have stay : ∀ {next : ClosePc}, ((s.pcbs p).type = .tcp → (s.pcbs p).err = true →
      (s.pcbs p).sendWait.closed = true ∨ next.shutting = true) →
      Shut s.nextPcb s.pcbs (Function.update pos who (some (p, next))) := by
    intro next hshut
    have := hs.proceed hpos rfl hshut
    rwa [Function.update_eq_self] at this
  cases h with
  | lock _ => exact hs.setPcb.move (outside rfl)
  | again _ => exact hs.move (outside rfl)
  | first _ => exact hs.move (outside rfl)
  | setErr => exact hs.proceed hpos rfl fun _ _ => Or.inr rfl
  | keepRecv _ => exact stay fun _ _ => Or.inr rfl
  | closeRecv _ _ => exact stay fun _ _ => Or.inr rfl
  | recvTwice _ => exact stay fun _ _ => Or.inr rfl
  | closeWait _ hclose =>
      refine hs.proceed hpos rfl fun _ _ => Or.inl ?_
      exact (Chan.close_done hclose).2.2.2
  | waitTwice _ hclosed => exact stay fun _ _ => Or.inl hclosed
  | udp htype =>
      refine stay ?_
      intro htcp
      rw [htype] at htcp
      cases htcp
  | unlock => exact hs.setPcb.move (outside rfl)

theorem LoopStep.shut {pc : LoopPc} (hpc : s.loop = pc) (h : LoopStep cfg s o pc t)
    (hs : s.InShut) : t.InShut := by
  have leave : ∀ {pcbs : PcbId → PCB} {pc' : LoopPc},
      Shut s.nextPcb pcbs (inClose s.threads s.loop) → pc.inClose = none →
      Shut s.nextPcb pcbs (inClose s.threads pc') := by
    intro pcbs pc' h hnone
    refine h.goto ?_
    rw [hpc]
    exact hnone
  cases h with
  | sendEmpty _ => exact hs
  | udpSendEmpty _ => exact hs
  | sendFailed _ _ _ _ _ => exact leave hs.setPcb rfl
  | sendTcp _ _ _ _ _ _ _ => exact leave hs.setPcb rfl
  | pushClosed _ => exact hs
  | doneClosed _ => exact hs
  | @done p a e k ch hsend =>
      refine leave (hs.setPcb rfl rfl ?_) rfl
      rw [(Chan.send_done hsend).1]
      nofun
  | @close p pc pc' a e k s' hclose =>
      have hpos : inClose s.threads s.loop .loop = some (p, pc) := by
        rw [hpc]
        rfl
      have hs' := hclose.shut hs hpos
      have hthreads : s'.threads = s.threads := by cases hclose <;> rfl
      rw [Sys.InShut, inClose_goto s.loop, hthreads]
      exact hs'
  | @closed p a e k =>
      have hleft : Shut s.nextPcb (Function.update s.pcbs p { s.pcbs p with lck := none })
          (Function.update (inClose s.threads s.loop) .loop none) := by
        refine hs.setPcb.move ?_
        intro q c hq
        rw [inClose, hpc] at hq
        cases hq
        rfl
      rw [Sys.InShut, inClose_goto s.loop]
      exact hleft
  | _ => exact leave hs rfl

theorem CallbackStep.shut {cb : Callback} (hloop : s.loop = .lwip)
    (h : CallbackStep cfg s o cb t) (hs : s.InShut) : t.InShut := by
  have leave : ∀ {nextPcb : PcbId} {pcbs : PcbId → PCB} {pc' : LoopPc},
      Shut nextPcb pcbs (inClose s.threads s.loop) → Shut nextPcb pcbs (inClose s.threads pc') := by
    intro nextPcb pcbs pc' h
    refine h.goto ?_
    rw [hloop]
    rfl
  cases h with
  | ignored => exact hs
  | accept _ _ => exact hs.newPcb rfl
  | assertion => exact hs
  | recvEmpty _ _ _ _ _ _ => exact hs
  | sent _ _ _ _ _ _ _ _ => exact leave hs.setPcb
  | udpEmpty => exact hs
  | udpNew _ _ => exact leave (hs.newPcb rfl)
  | _ => exact leave hs

theorem Step.shut {a : Act} (h : Step cfg s a t) (hs : s.InShut) : t.InShut := by
  have leave : ∀ {pc' : LoopPc}, s.loop = .select →
      Shut s.nextPcb s.pcbs (inClose s.threads pc') := by
    intro pc' hloop
    refine hs.goto ?_
    rw [hloop]
    rfl
  have quiet : ∀ {u : Tid} {x : Thread}, s.threads u = x → x.inClose = none →
      (s.threads u).inClose = none := by
    intro u x hu hx
    rw [hu, hx]
  cases h with
  | callRead hidle _ => exact hs.setThread (quiet hidle rfl)
  | callWrite hidle _ => exact hs.setThread (quiet hidle rfl)
  | callClose hidle _ => exact hs.setThread (quiet hidle rfl)
  | callIntercept hidle _ => exact hs.setThread (quiet hidle rfl)
  | read hth h =>
      cases h with
      | intercepted _ => exact hs
      | tooSmall _ _ => exact hs
      | _ => exact hs.setThread (quiet hth rfl)
  | @write th p w pc _ hth h =>
      cases h with
      | lock _ => exact .setThread hs.setPcb (quiet hth rfl)
      | @wait _ ch hrecv =>
          have hclosed : (s.pcbs p).sendWait.closed = true → ch.closed = true := by
            rw [Chan.closed_of_recv hrecv]
            exact id
          exact .setThread (.setPcb hs (by rfl) (by rfl) (by exact hclosed)) (quiet hth rfl)
      | unlock => exact .setThread hs.setPcb (quiet hth rfl)
      | _ => exact hs.setThread (quiet hth rfl)
  | @close th p pc pc' s' hth h =>
      have hpos : inClose s.threads s.loop (.goroutine th) = some (p, pc) := by
        rw [inClose, hth]
        rfl
      have hs' := h.shut hs hpos
      have hsame : s'.threads = s.threads ∧ s'.loop = s.loop := by cases h <;> exact ⟨rfl, rfl⟩
      simp only [Sys.InShut, inClose_setThread, hsame]
      exact hs'
  | @closed th p hth =>
      have hleft : Shut s.nextPcb (Function.update s.pcbs p { s.pcbs p with lck := none })
          (Function.update (inClose s.threads s.loop) (.goroutine th) none) := by
        refine hs.setPcb.move ?_
        intro q c hq
        rw [inClose, hth] at hq
        cases hq
        rfl
      rw [Sys.InShut, inClose_setThread]
      exact hleft
  | closePost hth _ => exact hs.setThread (quiet hth rfl)
  | intercept hth h =>
      cases h with
      | lock _ => exact .setThread hs.setPcb (quiet hth rfl)
      | twice _ => exact .setThread hs.setPcb (quiet hth rfl)
      | set => exact .setThread hs.setPcb (quiet hth rfl)
      | closedOld _ => exact hs
      | swap => exact .setThread hs.setPcb (quiet hth rfl)
      | unlock => exact .setThread hs.setPcb (quiet hth rfl)
      | _ => exact hs.setThread (quiet hth rfl)
  | takeRecved hloop _ => exact leave hloop
  | takeSend hloop _ => exact leave hloop
  | takeInput hloop _ => exact leave hloop
  | loop hpc h => exact h.shut hpc hs
  | callback hloop h => exact h.shut hloop hs
  | _ => exact hs

theorem reachable_shut (h : (bridge cfg).Reachable s) : s.InShut := by
  refine h.invariant_of reachable_inOrder ?_ ?_
  · rintro p ⟨hp, _⟩
    exact absurd hp (Nat.not_lt_zero p)
  · intro s a t hs _ hshut hstep
    exact (step_cases hs hstep).shut hshut

/-- A `Write` that holds the lock of a closed TCP PCB finds `sendWait` closed. -/
theorem Sys.InShut.closed (h : s.InShut) (hlocked : s.Locked) {p : PcbId} {th : Tid} {w : WriteId}
    (hp : Made s.nextPcb s.pcbs .tcp p) (herr : (s.pcbs p).err = true)
    (hth : s.threads th = .write p w .wait) : (s.pcbs p).sendWait.closed = true := by
  rcases h p hp herr with hclosed | ⟨who, pc, hpos, hpc⟩
  · exact hclosed
  · have hclosing : holdsBy s.threads s.loop who = some p :=
      holdsBy_of_inClose hpos (by rintro rfl; cases hpc)
    have hwriting : holdsBy s.threads s.loop (.goroutine th) = some p := by
      rw [holdsBy, hth]
      rfl
    obtain rfl := hlocked.unique hclosing hwriting
    rw [inClose, hth] at hpos
    cases hpos

end LwipCs
