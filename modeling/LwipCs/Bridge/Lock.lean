import LwipCs.Bridge.InOrder
import LwipCs.Interleave.Mutex

/-!
# Who holds `PCB.lck`

A `Write` holds the lock from its taking to its release, so across its wait for
`sendWait`; `close` and `Intercept` hold it for a few steps. In every reachable
state the mutex names exactly the actor that stands between the two.
-/

namespace LwipCs

open Interleave

/-- The PCB whose lock a goroutine holds. -/
def Thread.holds : Thread → Option PcbId
  | .write p _ .enqueue | .write p _ .wait | .write p _ .unlock => some p
  | .close _ .lock | .intercept _ _ .lock => none
  | .close p _ | .intercept p _ _ => some p
  | _ => none

/-- The PCB whose lock the loop holds. -/
def LoopPc.holds : LoopPc → Option PcbId
  | .close _ .lock _ _ _ => none
  | .close p _ _ _ _ => some p
  | _ => none

def holdsBy (threads : Tid → Thread) (loop : LoopPc) : Actor → Option PcbId
  | .loop => loop.holds
  | .goroutine t => (threads t).holds

/-- Each mutex names its holder. -/
def Locks (pcbs : PcbId → PCB) (threads : Tid → Thread) (loop : LoopPc) : Prop :=
  Owned (fun p => (pcbs p).lck) (holdsBy threads loop)

/-- `Locks` of a state of the system. -/
abbrev Sys.Locked (s : Sys) : Prop := Locks s.pcbs s.threads s.loop

section

variable {pcbs : PcbId → PCB} {threads : Tid → Thread} {loop : LoopPc}

theorem lck_update (p : PcbId) (x : PCB) :
    (fun q => (Function.update pcbs p x q).lck) =
      Function.update (fun q => (pcbs q).lck) p x.lck := by
  funext q
  by_cases hq : q = p
  · subst hq
    rw [Function.update_self, Function.update_self]
  · rw [Function.update_of_ne hq, Function.update_of_ne hq]

theorem holdsBy_setThread (t : Tid) (th : Thread) :
    holdsBy (Function.update threads t th) loop =
      Function.update (holdsBy threads loop) (.goroutine t) th.holds := by
  funext who
  cases who with
  | loop => rw [Function.update_of_ne (by nofun)]; rfl
  | goroutine u =>
      by_cases hu : u = t
      · subst hu
        rw [Function.update_self, holdsBy, Function.update_self]
      · rw [Function.update_of_ne (by simpa using hu), holdsBy, Function.update_of_ne hu]
        rfl

theorem holdsBy_goto (loop pc : LoopPc) :
    holdsBy threads pc = Function.update (holdsBy threads loop) .loop pc.holds := by
  funext who
  cases who with
  | loop => rw [Function.update_self]; rfl
  | goroutine u => rw [Function.update_of_ne (by nofun)]; rfl

namespace Locks

theorem setPcb (h : Locks pcbs threads loop) {p : PcbId} {x : PCB}
    (hx : x.lck = (pcbs p).lck) : Locks (Function.update pcbs p x) threads loop := by
  rw [Locks, lck_update, hx, Function.update_eq_self]
  exact h

theorem setThread (h : Locks pcbs threads loop) {t : Tid} {th : Thread}
    (hth : th.holds = (threads t).holds) : Locks pcbs (Function.update threads t th) loop := by
  have hsame : th.holds = holdsBy threads loop (.goroutine t) := hth
  rw [Locks, holdsBy_setThread, hsame, Function.update_eq_self]
  exact h

theorem goto (h : Locks pcbs threads loop) {pc : LoopPc} (hpc : pc.holds = loop.holds) :
    Locks pcbs threads pc := by
  have hsame : pc.holds = holdsBy threads loop .loop := hpc
  rw [Locks, holdsBy_goto loop, hsame, Function.update_eq_self]
  exact h

/-- A goroutine takes a free lock. -/
theorem acquire (h : Locks pcbs threads loop) {t : Tid} {th : Thread} {p : PcbId} {x : PCB}
    (hfree : (pcbs p).lck = none) (hidle : (threads t).holds = none)
    (hx : x.lck = some (.goroutine t)) (hth : th.holds = some p) :
    Locks (Function.update pcbs p x) (Function.update threads t th) loop := by
  rw [Locks, lck_update, holdsBy_setThread, hx, hth]
  exact Owned.acquire h hfree hidle

/-- A goroutine gives its lock back. -/
theorem release (h : Locks pcbs threads loop) {t : Tid} {th : Thread} {p : PcbId} {x : PCB}
    (hown : (threads t).holds = some p) (hx : x.lck = none) (hth : th.holds = none) :
    Locks (Function.update pcbs p x) (Function.update threads t th) loop := by
  rw [Locks, lck_update, holdsBy_setThread, hx, hth]
  exact Owned.release h hown

theorem loopAcquire (h : Locks pcbs threads loop) {pc : LoopPc} {p : PcbId} {x : PCB}
    (hfree : (pcbs p).lck = none) (hidle : loop.holds = none)
    (hx : x.lck = some .loop) (hpc : pc.holds = some p) :
    Locks (Function.update pcbs p x) threads pc := by
  rw [Locks, lck_update, holdsBy_goto loop, hx, hpc]
  exact Owned.acquire h hfree hidle

theorem loopRelease (h : Locks pcbs threads loop) {pc : LoopPc} {p : PcbId} {x : PCB}
    (hown : loop.holds = some p) (hx : x.lck = none) (hpc : pc.holds = none) :
    Locks (Function.update pcbs p x) threads pc := by
  rw [Locks, lck_update, holdsBy_goto loop, hx, hpc]
  exact Owned.release h hown

/-- The lock of a PCB names the one goroutine that holds it. -/
theorem holder (h : Locks pcbs threads loop) {t : Tid} {p : PcbId} :
    (threads t).holds = some p ↔ (pcbs p).lck = some (.goroutine t) :=
  h (.goroutine t) p

/-- Two goroutines that hold the lock of a PCB are one. -/
theorem eq_of_holds (h : Locks pcbs threads loop) {t u : Tid} {p : PcbId}
    (ht : (threads t).holds = some p) (hu : (threads u).holds = some p) : t = u := by
  have := h.unique (a := .goroutine t) (b := .goroutine u) ht hu
  exact Actor.goroutine.inj this

end Locks

theorem Thread.Ok.of_holds {nextPcb : PcbId} {th : Thread} {p : PcbId} (h : th.Ok nextPcb pcbs)
    (hholds : th.holds = some p) : p < nextPcb := by
  cases th with
  | write q w pc => cases pc <;> cases hholds <;> exact h.1
  | close q pc => cases pc <;> cases hholds <;> exact h
  | intercept q c pc => cases pc <;> cases hholds <;> exact h
  | _ => cases hholds

theorem LoopPc.Ok.of_holds {nextPcb : PcbId} {pc : LoopPc} {p : PcbId} (h : pc.Ok nextPcb pcbs)
    (hholds : pc.holds = some p) : p < nextPcb := by
  cases pc with
  | close q pc a e k => cases pc <;> cases hholds <;> exact h.1
  | _ => cases hholds

end

variable {cfg : Config} {s t : Sys} {o : Outcomes}

/-- The lock of a PCB not yet made is free. -/
theorem Sys.Locked.fresh (h : s.Locked) (hs : s.InUse) : (s.pcbs s.nextPcb).lck = none := by
  refine h.free_iff.mpr ?_
  intro who hholds
  cases who with
  | loop => exact Nat.lt_irrefl _ (hs.loop.of_holds hholds)
  | goroutine th => exact Nat.lt_irrefl _ ((hs.threads th).of_holds hholds)

theorem ReadStep.locked {th : Tid} {p : PcbId} {len : Nat} {pc : ReadPc}
    (hth : s.threads th = .read p len pc) (h : ReadStep s th p len pc t) (hs : s.Locked) :
    t.Locked := by
  have hidle : (s.threads th).holds = none := by rw [hth]; rfl
  cases h with
  | intercepted _ => exact hs
  | tooSmall _ _ => exact hs
  | _ => exact hs.setThread hidle.symm

theorem WriteStep.locked {th : Tid} {p : PcbId} {w : WriteId} {pc : WritePc}
    (hth : s.threads th = .write p w pc) (h : WriteStep s th p w pc t) (hs : s.Locked) :
    t.Locked := by
  have hholds : (s.threads th).holds = (Thread.write p w pc).holds := by rw [hth]
  cases h with
  | lock hlck => exact hs.acquire hlck hholds rfl rfl
  | enqueue _ => exact hs.setThread hholds.symm
  | wait _ => exact .setThread (hs.setPcb (by rfl)) hholds.symm
  | unlock => exact hs.release hholds rfl rfl
  | _ => exact hs.setThread hholds.symm

theorem InterceptStep.locked {th : Tid} {p : PcbId} {c : Nat} {pc : InterPc}
    (hth : s.threads th = .intercept p c pc) (h : InterceptStep s th p c pc t) (hs : s.Locked) :
    t.Locked := by
  have hholds : (s.threads th).holds = (Thread.intercept p c pc).holds := by rw [hth]
  cases h with
  | lock hlck => exact hs.acquire hlck hholds rfl rfl
  | twice _ => exact hs.release hholds rfl rfl
  | test _ => exact hs.setThread hholds.symm
  | set => exact .setThread (hs.setPcb (by rfl)) hholds.symm
  | closeOld _ => exact hs.setThread hholds.symm
  | closedOld _ => exact hs
  | swap => exact .setThread (hs.setPcb (by rfl)) hholds.symm
  | unlock => exact hs.release hholds rfl rfl

theorem CloseStep.locked {th : Tid} {p : PcbId} {pc pc' : ClosePc}
    (hth : s.threads th = .close p pc) (h : CloseStep s (.goroutine th) p pc t (some pc'))
    (hs : s.Locked) : Locks t.pcbs (Function.update t.threads th (.close p pc')) t.loop := by
  have hholds : (s.threads th).holds = (Thread.close p pc).holds := by rw [hth]
  cases h with
  | lock hlck => exact hs.acquire hlck hholds rfl rfl
  | setErr => exact .setThread (hs.setPcb (by rfl)) hholds.symm
  | closeWait _ _ => exact .setThread (hs.setPcb (by rfl)) hholds.symm
  | _ => exact hs.setThread hholds.symm

theorem CloseStep.loopLocked {p : PcbId} {pc pc' : ClosePc} {a e : Ptr} {k : ConnId}
    (hpc : s.loop = .close p pc a e k) (h : CloseStep s .loop p pc t (some pc')) (hs : s.Locked) :
    Locks t.pcbs t.threads (.close p pc' a e k) := by
  have hholds : s.loop.holds = (LoopPc.close p pc a e k).holds := by rw [hpc]
  cases h with
  | lock hlck => exact hs.loopAcquire hlck hholds rfl rfl
  | setErr => exact .goto (hs.setPcb (by rfl)) hholds.symm
  | closeWait _ _ => exact .goto (hs.setPcb (by rfl)) hholds.symm
  | _ => exact hs.goto hholds.symm

theorem LoopStep.locked {pc : LoopPc} (hpc : s.loop = pc) (h : LoopStep cfg s o pc t)
    (hs : s.Locked) : t.Locked := by
  have hholds : s.loop.holds = pc.holds := by rw [hpc]
  cases h with
  | sendFailed _ _ _ _ _ => exact .goto (hs.setPcb (by rfl)) hholds.symm
  | sendTcp _ _ _ _ _ _ _ => exact .goto (hs.setPcb (by rfl)) hholds.symm
  | sendEmpty _ => exact hs
  | udpSendEmpty _ => exact hs
  | pushClosed _ => exact hs
  | doneClosed _ => exact hs
  | done _ => exact .goto (hs.setPcb (by rfl)) hholds.symm
  | close hclose =>
      have hs' := hclose.loopLocked hpc hs
      exact hs'
  | closed => exact hs.loopRelease hholds rfl rfl
  | _ => exact hs.goto hholds.symm

theorem CallbackStep.locked {cb : Callback} (hloop : s.loop = .lwip)
    (h : CallbackStep cfg s o cb t) (hs : s.Locked) (hknown : s.InUse) : t.Locked := by
  have hholds : s.loop.holds = none := by
    rw [hloop]
    rfl
  have hfresh : (s.pcbs s.nextPcb).lck = none := hs.fresh hknown
  cases h with
  | ignored => exact hs
  | accept _ _ => exact hs.setPcb hfresh.symm
  | assertion => exact hs
  | recvEmpty _ _ _ _ _ _ => exact hs
  | sent _ _ _ _ _ _ _ _ => exact .goto (hs.setPcb (by rfl)) hholds.symm
  | udpEmpty => exact hs
  | udpNew _ _ => exact .goto (hs.setPcb hfresh.symm) hholds.symm
  | _ => exact hs.goto hholds.symm

theorem Step.locked {a : Act} (h : Step cfg s a t) (hs : s.Locked) (hknown : s.InUse) :
    t.Locked := by
  cases h with
  | callRead hidle _ => exact hs.setThread (by rw [hidle]; rfl)
  | callWrite hidle _ => exact hs.setThread (by rw [hidle]; rfl)
  | callClose hidle _ => exact hs.setThread (by rw [hidle]; rfl)
  | callIntercept hidle _ => exact hs.setThread (by rw [hidle]; rfl)
  | read hth h => exact h.locked hth hs
  | write hth h => exact h.locked hth hs
  | close hth h => exact h.locked hth hs
  | closed hth => exact hs.release (by rw [hth]; rfl) rfl rfl
  | closePost hth _ => exact hs.setThread (by rw [hth]; rfl)
  | intercept hth h => exact h.locked hth hs
  | takeRecved hloop _ => exact hs.goto (by rw [hloop]; rfl)
  | takeSend hloop _ => exact hs.goto (by rw [hloop]; rfl)
  | takeInput hloop _ => exact hs.goto (by rw [hloop]; rfl)
  | loop hpc h => exact h.locked hpc hs
  | callback hloop h => exact h.locked hloop hs hknown
  | _ => exact hs

/-- In every reachable state each mutex names its holder. -/
theorem reachable_locked (h : (bridge cfg).Reachable s) : s.Locked := by
  refine h.invariant_of reachable_inOrder ?_ ?_
  · intro who p
    cases who <;> exact ⟨nofun, nofun⟩
  · intro s a t hs _ hlocked hstep
    exact (step_cases hs hstep).locked hlocked hs.known

end LwipCs
