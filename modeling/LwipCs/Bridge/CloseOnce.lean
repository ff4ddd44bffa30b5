import LwipCs.Bridge.Lock

/-!
# `PCB.close` runs once

The first caller of `close` sets `err` and closes the channels; later callers find
`err` set and leave. So `sendWait` is closed by one caller, after `err` is set.
-/

namespace LwipCs

open Interleave

def Thread.inClose : Thread → Option (PcbId × ClosePc)
  | .close p pc => some (p, pc)
  | _ => none

def LoopPc.inClose : LoopPc → Option (PcbId × ClosePc)
  | .close p pc _ _ _ => some (p, pc)
  | _ => none

/-- Where an actor stands in `PCB.close`. -/
def inClose (threads : Tid → Thread) (loop : LoopPc) : Actor → Option (PcbId × ClosePc)
  | .loop => loop.inClose
  | .goroutine t => (threads t).inClose

/-- Places between the test of `err` and the close of `sendWait`. -/
def ClosePc.first : ClosePc → Bool
  | .setErr | .closeRecv | .closeWait => true
  | _ => false

/-- The caller past the test of `err` is the first, and `sendWait` is still open. -/
structure Closing (pcbs : PcbId → PCB) (pos : Actor → Option (PcbId × ClosePc)) : Prop where
  setErr : ∀ who p, pos who = some (p, .setErr) → (pcbs p).err = false
  erred : ∀ who p pc, pos who = some (p, pc) → pc.erred = true → (pcbs p).err = true
  isOpen : ∀ who p pc, pos who = some (p, pc) → pc.first = true →
    (pcbs p).sendWait.closed = false
  closed : ∀ p, (pcbs p).sendWait.closed = true → (pcbs p).err = true

/-- `Closing` of a state of the system. -/
abbrev Sys.ClosedOnce (s : Sys) : Prop := Closing s.pcbs (inClose s.threads s.loop)

section

variable {pcbs : PcbId → PCB} {threads : Tid → Thread} {loop : LoopPc}
variable {pos : Actor → Option (PcbId × ClosePc)}

theorem inClose_setThread (t : Tid) (th : Thread) :
    inClose (Function.update threads t th) loop =
      Function.update (inClose threads loop) (.goroutine t) th.inClose := by
  funext who
  cases who with
  | loop => rw [Function.update_of_ne (by nofun)]; rfl
  | goroutine u =>
      by_cases hu : u = t
      · subst hu
        rw [Function.update_self, inClose, Function.update_self]
      · rw [Function.update_of_ne (by simpa using hu), inClose, Function.update_of_ne hu]
        rfl

theorem inClose_goto (loop pc : LoopPc) :
    inClose threads pc = Function.update (inClose threads loop) .loop pc.inClose := by
  funext who
  cases who with
  | loop => rw [Function.update_self]; rfl
  | goroutine u => rw [Function.update_of_ne (by nofun)]; rfl

/-- Past its lock, `PCB.close` holds it. -/
theorem holdsBy_of_inClose {who : Actor} {p : PcbId} {pc : ClosePc}
    (h : inClose threads loop who = some (p, pc)) (hpc : pc ≠ .lock) :
    holdsBy threads loop who = some p := by
  cases who with
  | loop =>
      rw [holdsBy]
      cases loop with
      | close q pc' a e k =>
          cases h
          cases pc <;> first | rfl | exact absurd rfl hpc
      | _ => cases h
  | goroutine t =>
      rw [holdsBy]
      rw [inClose] at h
      generalize threads t = th at h ⊢
      cases th with
      | close q pc' =>
          cases h
          cases pc <;> first | rfl | exact absurd rfl hpc
      | _ => cases h

namespace Closing

theorem setPcb (h : Closing pcbs pos) {p : PcbId} {x : PCB}
    (herr : x.err = (pcbs p).err)
    (hwait : x.sendWait.closed = (pcbs p).sendWait.closed) :
    Closing (Function.update pcbs p x) pos := by
  have err : ∀ q, (Function.update pcbs p x q).err = (pcbs q).err := update_field PCB.err herr
  have wait : ∀ q, (Function.update pcbs p x q).sendWait.closed = (pcbs q).sendWait.closed :=
    update_field (fun y : PCB => y.sendWait.closed) hwait
  constructor
  · simpa only [err] using h.setErr
  · simpa only [err] using h.erred
  · simpa only [wait] using h.isOpen
  · simpa only [err, wait] using h.closed

theorem newPcb (h : Closing pcbs pos) {p : PcbId} {x : PCB}
    (hnone : ∀ who pc, pos who ≠ some (p, pc))
    (hopen : x.sendWait.closed = false) : Closing (Function.update pcbs p x) pos := by
  have other : ∀ who q pc, pos who = some (q, pc) → Function.update pcbs p x q = pcbs q := by
    intro who q pc hpos
    refine Function.update_of_ne ?_ ..
    rintro rfl
    exact hnone who pc hpos
  constructor
  · intro who q hpos
    rw [other who q _ hpos]
    exact h.setErr who q hpos
  · intro who q pc hpos
    rw [other who q _ hpos]
    exact h.erred who q pc hpos
  · intro who q pc hpos
    rw [other who q _ hpos]
    exact h.isOpen who q pc hpos
  · intro q hq
    by_cases hqp : q = p
    · subst hqp
      rw [Function.update_self, hopen] at hq
      cases hq
    · rw [Function.update_of_ne hqp] at hq ⊢
      exact h.closed q hq

/-- An actor moves to a place outside the closing part. -/
theorem move (h : Closing pcbs pos) {who : Actor} {place : Option (PcbId × ClosePc)}
    (hplace : ∀ p pc, place = some (p, pc) → pc.first = false ∧
      (pc.erred = true → (pcbs p).err = true)) :
    Closing pcbs (Function.update pos who place) := by
  have old : ∀ who' p pc, Function.update pos who place who' = some (p, pc) →
      pos who' = some (p, pc) ∨ (pc.first = false ∧ (pc.erred = true → (pcbs p).err = true)) := by
    intro who' p pc hpos
    by_cases hw : who' = who
    · subst hw
      rw [Function.update_self] at hpos
      exact Or.inr (hplace p pc hpos)
    · rw [Function.update_of_ne hw] at hpos
      exact Or.inl hpos
  refine ⟨?_, ?_, ?_, h.closed⟩
  · intro who' p hpos
    rcases old who' p _ hpos with hpos | ⟨hfirst, _⟩
    · exact h.setErr who' p hpos
    · cases hfirst
  · intro who' p pc hpos hpc
    rcases old who' p pc hpos with hpos | ⟨_, herr⟩
    · exact h.erred who' p pc hpos hpc
    · exact herr hpc
  · intro who' p pc hpos hpc
    rcases old who' p pc hpos with hpos | ⟨hfirst, _⟩
    · exact h.isOpen who' p pc hpos hpc
    · rw [hpc] at hfirst
      cases hfirst

theorem setThread (h : Closing pcbs (inClose threads loop)) {t : Tid} {th : Thread}
    (hth : ∀ p pc, th.inClose = some (p, pc) → pc = .lock) :
    Closing pcbs (inClose (Function.update threads t th) loop) := by
  rw [inClose_setThread]
  refine h.move ?_
  intro p pc hplace
  rw [hth p pc hplace]
  exact ⟨rfl, nofun⟩

theorem goto (h : Closing pcbs (inClose threads loop)) {pc : LoopPc}
    (hpc : ∀ p c, pc.inClose = some (p, c) → c = .lock) :
    Closing pcbs (inClose threads pc) := by
  rw [inClose_goto loop]
  refine h.move ?_
  intro p c hplace
  rw [hpc p c hplace]
  exact ⟨rfl, nofun⟩

end Closing

variable {s t : Sys}

/-- The only caller past the lock changes its PCB and moves on. -/
theorem Closing.change (h : Closing pcbs pos) {who : Actor} {p : PcbId} {x : PCB} {next : ClosePc}
    (hown : ∀ who' pc', pos who' = some (p, pc') → pc' ≠ .lock → who' = who)
    (herr : (pcbs p).err = true → x.err = true)
    (hclosed : x.sendWait.closed = true → x.err = true)
    (hset : next = .setErr → x.err = false) (herred : next.erred = true → x.err = true)
    (hfirst : next.first = true → x.sendWait.closed = false) :
    Closing (Function.update pcbs p x) (Function.update pos who (some (p, next))) := by
  have old : ∀ who' q pc, Function.update pos who (some (p, next)) who' = some (q, pc) →
      pc ≠ .lock → (q = p ∧ pc = next) ∨ (q ≠ p ∧ pos who' = some (q, pc)) := by
    intro who' q pc hpos hpc
    by_cases hw : who' = who
    · subst hw
      rw [Function.update_self] at hpos
      cases hpos
      exact Or.inl ⟨rfl, rfl⟩
    · rw [Function.update_of_ne hw] at hpos
      refine Or.inr ⟨?_, hpos⟩
      intro hqp
      subst hqp
      exact hw (hown who' pc hpos hpc)
  constructor
  · intro who' q hpos
    rcases old who' q _ hpos nofun with ⟨rfl, rfl⟩ | ⟨hq, hpos⟩
    · rw [Function.update_self]
      exact hset rfl
    · rw [Function.update_of_ne hq]
      exact h.setErr who' q hpos
  · intro who' q pc hpos hpc
    rcases old who' q pc hpos (by rintro rfl; cases hpc) with ⟨rfl, rfl⟩ | ⟨hq, hpos⟩
    · rw [Function.update_self]
      exact herred hpc
    · rw [Function.update_of_ne hq]
      exact h.erred who' q pc hpos hpc
  · intro who' q pc hpos hpc
    rcases old who' q pc hpos (by rintro rfl; cases hpc) with ⟨rfl, rfl⟩ | ⟨hq, hpos⟩
    · rw [Function.update_self]
      exact hfirst hpc
    · rw [Function.update_of_ne hq]
      exact h.isOpen who' q pc hpos hpc
  · intro q hq
    by_cases hqp : q = p
    · subst hqp
      rw [Function.update_self] at hq ⊢
      exact hclosed hq
    · rw [Function.update_of_ne hqp] at hq ⊢
      exact h.closed q hq

/-- One step of `PCB.close` by the only caller that is past the lock. -/
theorem CloseStep.closing {who : Actor} {p : PcbId} {pc : ClosePc} {next : Option ClosePc}
    (h : CloseStep s who p pc t next) (hs : Closing s.pcbs pos) (hpos : pos who = some (p, pc))
    (hown : pc ≠ .lock → ∀ who' pc', pos who' = some (p, pc') → pc' ≠ .lock → who' = who) :
    Closing t.pcbs (Function.update pos who (next.map (p, ·))) := by
  have stay : ∀ next : ClosePc, pc ≠ .lock → (next = .setErr → (s.pcbs p).err = false) →
      (next.erred = true → (s.pcbs p).err = true) →
      (next.first = true → (s.pcbs p).sendWait.closed = false) →
      Closing s.pcbs (Function.update pos who (some (p, next))) := by
    intro next hpc hset herred hfirst
    have := hs.change (hown hpc) id (hs.closed p) hset herred hfirst
    rwa [Function.update_eq_self] at this
  cases h with
  | lock _ =>
      refine .move (hs.setPcb (by rfl) (by rfl)) ?_
      rintro q pc' ⟨⟩
      exact ⟨rfl, nofun⟩
  | again herr => exact stay .unlock nofun nofun (fun _ => herr) nofun
  | first herr =>
      refine stay .setErr nofun (fun _ => herr) nofun fun _ => ?_
      cases hwait : (s.pcbs p).sendWait.closed with
      | false => rfl
      | true =>
          rw [hs.closed p hwait] at herr
          cases herr
  | setErr =>
      exact hs.change (hown nofun) (fun _ => rfl) (fun _ => rfl) nofun (fun _ => rfl)
        fun _ => hs.isOpen who p _ hpos rfl
  | keepRecv _ =>
      exact stay .closeWait nofun nofun (fun _ => hs.erred who p _ hpos rfl)
        fun _ => hs.isOpen who p _ hpos rfl
  | closeRecv _ _ =>
      exact stay .closeWait nofun nofun (fun _ => hs.erred who p _ hpos rfl)
        fun _ => hs.isOpen who p _ hpos rfl
  | recvTwice _ =>
      exact stay .closeWait nofun nofun (fun _ => hs.erred who p _ hpos rfl)
        fun _ => hs.isOpen who p _ hpos rfl
  | closeWait _ _ =>
      exact hs.change (hown nofun) id (fun _ => hs.erred who p _ hpos rfl) nofun
        (fun _ => hs.erred who p _ hpos rfl) nofun
  | waitTwice _ _ => exact stay .unlock nofun nofun (fun _ => hs.erred who p _ hpos rfl) nofun
  | udp _ => exact stay .unlock nofun nofun (fun _ => hs.erred who p _ hpos rfl) nofun
  | unlock =>
      refine .move (hs.setPcb (by rfl) (by rfl)) ?_
      rintro q pc' ⟨⟩

end

variable {cfg : Config} {s t : Sys} {o : Outcomes}

/-- Past its lock a caller of `PCB.close` is alone. -/
theorem Sys.Locked.alone (h : s.Locked) {who : Actor} {p : PcbId} {pc : ClosePc}
    (hpos : inClose s.threads s.loop who = some (p, pc)) (hpc : pc ≠ .lock) :
    ∀ who' pc', inClose s.threads s.loop who' = some (p, pc') → pc' ≠ .lock → who' = who :=
  fun _ _ hpos' hpc' =>
    h.unique (holdsBy_of_inClose hpos' hpc') (holdsBy_of_inClose hpos hpc)

theorem ReadStep.closedOnce {th : Tid} {p : PcbId} {len : Nat} {pc : ReadPc}
    (h : ReadStep s th p len pc t) (hs : s.ClosedOnce) : t.ClosedOnce := by
  cases h with
  | intercepted _ => exact hs
  | tooSmall _ _ => exact hs
  | _ => exact hs.setThread nofun

theorem WriteStep.closedOnce {th : Tid} {p : PcbId} {w : WriteId} {pc : WritePc}
    (h : WriteStep s th p w pc t) (hs : s.ClosedOnce) : t.ClosedOnce := by
  cases h with
  | lock _ => exact .setThread (hs.setPcb (by rfl) (by rfl)) (by nofun)
  | @wait r ch hrecv =>
      have hclosed : ch.closed = (s.pcbs p).sendWait.closed := by
        rcases Chan.recv_done hrecv with ⟨_, _, _, _, hclosed⟩ | ⟨_, hch, _⟩
        · exact hclosed
        · rw [hch]
      exact .setThread (.setPcb hs (by rfl) (by exact hclosed)) (by nofun)
  | unlock => exact .setThread (hs.setPcb (by rfl) (by rfl)) (by nofun)
  | _ => exact hs.setThread nofun

theorem InterceptStep.closedOnce {th : Tid} {p : PcbId} {c : Nat} {pc : InterPc}
    (h : InterceptStep s th p c pc t) (hs : s.ClosedOnce) : t.ClosedOnce := by
  cases h with
  | lock _ => exact .setThread (hs.setPcb (by rfl) (by rfl)) (by nofun)
  | twice _ => exact .setThread (hs.setPcb (by rfl) (by rfl)) (by nofun)
  | set => exact .setThread (hs.setPcb (by rfl) (by rfl)) (by nofun)
  | closedOld _ => exact hs
  | swap => exact .setThread (hs.setPcb (by rfl) (by rfl)) (by nofun)
  | unlock => exact .setThread (hs.setPcb (by rfl) (by rfl)) (by nofun)
  | _ => exact hs.setThread nofun

theorem LoopStep.closedOnce {pc : LoopPc} (hpc : s.loop = pc) (h : LoopStep cfg s o pc t)
    (hs : s.ClosedOnce) (hlocked : s.Locked) : t.ClosedOnce := by
  cases h with
  | sendFailed _ _ _ _ _ => exact .goto (hs.setPcb (by rfl) (by rfl)) (by nofun)
  | sendTcp _ _ _ _ _ _ _ => exact .goto (hs.setPcb (by rfl) (by rfl)) (by nofun)
  | sendEmpty _ => exact hs
  | udpSendEmpty _ => exact hs
  | pushClosed _ => exact hs
  | doneClosed _ => exact hs
  | done hsend =>
      obtain ⟨hopen, _, _, _, hopen'⟩ := Chan.send_done hsend
      exact .goto (.setPcb hs (by rfl) (by exact hopen'.trans hopen.symm)) (by nofun)
  | @close p pc pc' a e k s' hclose =>
      have hpos : inClose s.threads s.loop .loop = some (p, pc) := by
        rw [hpc]
        rfl
      have := hclose.closing hs hpos fun hne => hlocked.alone hpos hne
      have hthreads : s'.threads = s.threads := by cases hclose <;> rfl
      rw [Sys.ClosedOnce, inClose_goto s.loop, hthreads]
      exact this
  | closed => exact .goto (hs.setPcb (by rfl) (by rfl)) (by nofun)
  | _ => exact hs.goto nofun

/-- A caller of `close` is in a PCB that was made. -/
theorem Sys.InUse.inClose_lt (hs : s.InUse) {who : Actor} {p : PcbId} {pc : ClosePc}
    (hpos : inClose s.threads s.loop who = some (p, pc)) : p < s.nextPcb := by
  cases who with
  | loop =>
      have hok := hs.loop
      rw [inClose] at hpos
      generalize s.loop = loop at hpos hok
      cases loop with
      | close q pc' a e k =>
          cases hpos
          exact hok.1
      | _ => cases hpos
  | goroutine th =>
      have hok := hs.threads th
      rw [inClose] at hpos
      generalize s.threads th = thread at hpos hok
      cases thread with
      | close q pc' =>
          cases hpos
          exact hok
      | _ => cases hpos

theorem Sys.InUse.not_inClose (hs : s.InUse) (who : Actor) (pc : ClosePc) :
    inClose s.threads s.loop who ≠ some (s.nextPcb, pc) :=
  fun hpos => Nat.lt_irrefl _ (hs.inClose_lt hpos)

theorem CallbackStep.closedOnce {cb : Callback} (h : CallbackStep cfg s o cb t)
    (hs : s.ClosedOnce) (hknown : s.InUse) : t.ClosedOnce := by
  cases h with
  | ignored => exact hs
  | accept _ _ => exact hs.newPcb hknown.not_inClose rfl
  | assertion => exact hs
  | recvEmpty _ _ _ _ _ _ => exact hs
  | fin _ _ _ _ _ => exact hs.goto (by rintro _ _ ⟨⟩; rfl)
  | err _ _ _ _ _ => exact hs.goto (by rintro _ _ ⟨⟩; rfl)
  | sent _ _ _ _ _ _ _ _ => exact .goto (hs.setPcb (by rfl) (by rfl)) (by nofun)
  | udpEmpty => exact hs
  | udpNew _ _ => exact .goto (hs.newPcb hknown.not_inClose (by rfl)) (by nofun)
  | _ => exact hs.goto nofun

theorem Step.closedOnce {a : Act} (h : Step cfg s a t) (hs : s.ClosedOnce) (hlocked : s.Locked)
    (hknown : s.InUse) : t.ClosedOnce := by
  cases h with
  | callRead _ _ => exact hs.setThread nofun
  | callWrite _ _ => exact hs.setThread nofun
  | callClose _ _ => exact hs.setThread (by rintro _ _ ⟨⟩; rfl)
  | callIntercept _ _ => exact hs.setThread nofun
  | read _ h => exact h.closedOnce hs
  | write _ h => exact h.closedOnce hs
  | @close th p pc pc' s' hth h =>
      have hpos : inClose s.threads s.loop (.goroutine th) = some (p, pc) := by
        rw [inClose, hth]
        rfl
      have hs' := h.closing hs hpos fun hne => hlocked.alone hpos hne
      have hsame : s'.threads = s.threads ∧ s'.loop = s.loop := by cases h <;> exact ⟨rfl, rfl⟩
      simp only [Sys.ClosedOnce, inClose_setThread, hsame]
      exact hs'
  | closed _ => exact .setThread (hs.setPcb (by rfl) (by rfl)) (by nofun)
  | closePost _ _ => exact hs.setThread nofun
  | intercept _ h => exact h.closedOnce hs
  | takeRecved _ _ => exact hs.goto nofun
  | takeSend _ _ => exact hs.goto nofun
  | takeInput _ _ => exact hs.goto nofun
  | loop hpc h => exact h.closedOnce hpc hs hlocked
  | callback _ h => exact h.closedOnce hs hknown
  | _ => exact hs

/-- In every reachable state at most one caller closes the channels of a PCB. -/
theorem reachable_closedOnce (h : (bridge cfg).Reachable s) : s.ClosedOnce := by
  have known : ∀ {s}, (bridge cfg).Reachable s → s.InOrder ∧ s.Locked :=
    fun h => ⟨reachable_inOrder h, reachable_locked h⟩
  refine h.invariant_of known ?_ ?_
  · refine ⟨?_, ?_, ?_, nofun⟩ <;> intro who <;> cases who <;> nofun
  · intro s a t hs _ hclosed hstep
    exact (step_cases hs.1 hstep).closedOnce hclosed hs.2 hs.1.known

end LwipCs
