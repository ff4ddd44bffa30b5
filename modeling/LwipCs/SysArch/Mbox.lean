import LwipCs.Interleave.Permit
import LwipCs.Interleave.Total
import LwipCs.Memory.Ring
import LwipCs.SysArch.Sem

/-!
# Mailboxes

A `sys_mbox` is a ring of 128 slots over two `int` counters, under a semaphore that serves
as its mutex. Two more semaphores wake a fetcher when a message comes into the empty box and
a poster when one leaves a box that posters wait for.

The semaphores are the ones their users see. What a thread does between two of their
operations is one step.
-/

namespace LwipCs

namespace SysArch

open Interleave Memory

variable {μ : Type}

/-- `SYS_MBOX_SIZE`. -/
def mboxSize : Nat := 128

/-- Where a thread stands in the functions of a mailbox. -/
inductive MboxPc (μ : Type)
  | idle
  /-- before the mutex is taken; `wait` tells `sys_mbox_post` from `sys_mbox_trypost` -/
  | postLock (m : μ) (wait : Bool)
  /-- before the test whether the box is full -/
  | postTest (m : μ) (wait : Bool)
  /-- `ERR_MEM`, before the mutex is given back -/
  | postRefuse
  /-- after `wait_send++`, before the mutex is given back -/
  | postRelease (m : μ)
  /-- before `not_full` is taken -/
  | postWait (m : μ)
  /-- before the mutex is taken again -/
  | postRelock (m : μ)
  /-- before `wait_send--` -/
  | postRetry (m : μ)
  /-- before the message is stored -/
  | postStore (m : μ)
  | postSignal
  | postUnlock
  /-- before the mutex is taken; without a timeout in `sys_arch_mbox_tryfetch` -/
  | fetchLock (timeout : Option Nat)
  /-- before the test whether the box is empty -/
  | fetchTest (timeout : Option Nat)
  /-- the box is empty, before the mutex is given back -/
  | fetchRelease (timeout : Option Nat)
  /-- before `not_empty` is taken -/
  | fetchWait (timeout : Nat)
  /-- before the message is taken -/
  | fetchTake
  | fetchSignal
  | fetchUnlock
  deriving DecidableEq

/-- `struct sys_mbox`, with the threads that use it. `undefined` is set when an `int`
overflows. -/
structure Mbox (μ : Type) where
  first : Nat
  last : Nat
  msgs : Nat → Option μ
  notEmpty : Nat
  notFull : Nat
  mutex : Nat
  waitSend : Nat
  pcs : PThread → MboxPc μ
  undefined : Bool

/-- Calls, steps of threads, and timeouts of `sys_arch_mbox_fetch`. -/
inductive MboxAct (μ : Type)
  | post (t : PThread) (m : μ)
  | trypost (t : PThread) (m : μ)
  | fetch (t : PThread) (timeout : Nat)
  | tryfetch (t : PThread)
  | go (t : PThread)
  | expire (t : PThread)
  deriving DecidableEq

namespace Mbox

def goto (s : Mbox μ) (t : PThread) (pc : MboxPc μ) : Mbox μ :=
  { s with pcs := Function.update s.pcs t pc }

/-- An operation on `mbox->mutex`. -/
def onMutex (s : Mbox μ) (op : SemOp) (t : PThread) (pc : MboxPc μ) : Option (Mbox μ) :=
  (semStep s.mutex op).map fun c => { s with mutex := c }.goto t pc

/-- An operation on `mbox->not_full`. -/
def onNotFull (s : Mbox μ) (op : SemOp) (t : PThread) (pc : MboxPc μ) : Option (Mbox μ) :=
  (semStep s.notFull op).map fun c => { s with notFull := c }.goto t pc

/-- An operation on `mbox->not_empty`. -/
def onNotEmpty (s : Mbox μ) (op : SemOp) (t : PThread) (pc : MboxPc μ) : Option (Mbox μ) :=
  (semStep s.notEmpty op).map fun c => { s with notEmpty := c }.goto t pc

/-- The test of the posting functions; its left side is at most its right one later on, so
no other sum of theirs overflows first. -/
def testFull (s : Mbox μ) (t : PThread) (m : μ) (wait : Bool) : Mbox μ :=
  if intMax < s.first + mboxSize ∨ intMax < s.last + 1 then { s with undefined := true }
  else if s.first + mboxSize ≤ s.last + 1 then
    if wait then { s with waitSend := s.waitSend + 1 }.goto t (.postRelease m)
    else s.goto t .postRefuse
  else s.goto t (.postStore m)

/-- The message goes into the ring; the first one of an empty box is signalled. -/
def store (s : Mbox μ) (t : PThread) (m : μ) : Mbox μ :=
  { s with
    msgs := Function.update s.msgs (s.last % mboxSize) (some m)
    last := s.last + 1 }.goto t (if s.last = s.first then .postSignal else .postUnlock)

/-- The message leaves the ring; posters that wait are signalled. -/
def take (s : Mbox μ) (t : PThread) : Mbox μ :=
  { s with first := s.first + 1 }.goto t (if s.waitSend ≠ 0 then .fetchSignal else .fetchUnlock)

/-- The next step of a thread. -/
def go (s : Mbox μ) (t : PThread) : Option (Mbox μ) :=
  match s.pcs t with
  | .idle => none
  | .postLock m wait => s.onMutex (.take t) t (.postTest m wait)
  | .postTest m wait => some (s.testFull t m wait)
  | .postRefuse => s.onMutex (.signal t) t .idle
  | .postRelease m => s.onMutex (.signal t) t (.postWait m)
  | .postWait m => s.onNotFull (.take t) t (.postRelock m)
  | .postRelock m => s.onMutex (.take t) t (.postRetry m)
  | .postRetry m => some ({ s with waitSend := s.waitSend - 1 }.goto t (.postTest m true))
  | .postStore m => some (s.store t m)
  | .postSignal => s.onNotEmpty (.signal t) t .postUnlock
  | .postUnlock => s.onMutex (.signal t) t .idle
  | .fetchLock timeout => s.onMutex (.take t) t (.fetchTest timeout)
  | .fetchTest timeout =>
      some (s.goto t (if s.first = s.last then .fetchRelease timeout else .fetchTake))
  | .fetchRelease timeout => s.onMutex (.signal t) t (timeout.elim .idle .fetchWait)
  | .fetchWait timeout => s.onNotEmpty (.take t) t (.fetchLock (some timeout))
  | .fetchTake => some (s.take t)
  | .fetchSignal => s.onNotFull (.signal t) t .fetchUnlock
  | .fetchUnlock => s.onMutex (.signal t) t .idle

/-- A thread that is in no function of the mailbox calls one. -/
def enter (s : Mbox μ) (t : PThread) (pc : MboxPc μ) : Option (Mbox μ) :=
  match s.pcs t with
  | .idle => some (s.goto t pc)
  | _ => none

def step (s : Mbox μ) (a : MboxAct μ) : Option (Mbox μ) :=
  if s.undefined then none
  else match a with
    | .post t m => s.enter t (.postLock m true)
    | .trypost t m => s.enter t (.postLock m false)
    | .fetch t timeout => s.enter t (.fetchLock (some timeout))
    | .tryfetch t => s.enter t (.fetchLock none)
    | .go t => s.go t
    | .expire t =>
        match s.pcs t with
        | .fetchWait timeout =>
            if 0 < timeout then s.onNotEmpty (.expired t) t .idle else none
        | _ => none

end Mbox

/-- A mailbox made by `sys_mbox_new`. -/
def mbox (μ : Type) : Machine (Mbox μ) (MboxAct μ) :=
  ⟨⟨0, 0, fun _ => none, 0, 0, 1, 0, fun _ => .idle, false⟩, Mbox.step⟩

/-! ### The mailbox as its users see it -/

/-- What happens to the messages, and who did it. -/
inductive MboxOp (μ : Type)
  | posted (t : PThread) (m : μ)
  | fetched (t : PThread) (m : μ)
  | foundFull (t : PThread)
  | foundEmpty (t : PThread)
  deriving DecidableEq

/-- The messages that wait, after `left` messages have left. -/
structure Queue (μ : Type) where
  left : Nat
  queue : List μ

/-- A queue of at most 127 messages. -/
def mboxSpec (μ : Type) [DecidableEq μ] : Machine (Queue μ) (MboxOp μ) where
  start := ⟨0, []⟩
  step q
    | .posted _ m => if q.queue.length < 127 then some ⟨q.left, q.queue ++ [m]⟩ else none
    | .fetched _ m =>
        match q.queue with
        | m' :: rest => if m' = m then some ⟨q.left + 1, rest⟩ else none
        | [] => none
    | .foundFull _ => if q.queue.length = 127 then some q else none
    | .foundEmpty _ => if q.queue = [] then some q else none

/-- The messages posted, in order. -/
def postedIn (ops : List (MboxOp μ)) : List μ :=
  ops.filterMap fun
    | .posted _ m => some m
    | _ => none

/-- The messages fetched, in order. -/
def fetchedIn (ops : List (MboxOp μ)) : List μ :=
  ops.filterMap fun
    | .fetched _ m => some m
    | _ => none

/-- The step of a call that counts, with what it returns where it returns without a message. -/
def Mbox.shows (s : Mbox μ) : MboxAct μ → Option (MboxOp μ)
  | .go t =>
      match s.pcs t with
      | .postRefuse => some (.foundFull t)
      | .postStore m => some (.posted t m)
      | .fetchRelease none => some (.foundEmpty t)
      | .fetchTake => (s.msgs (s.first % mboxSize)).map (.fetched t)
      | _ => none
  | _ => none

/-- No thread can go on by itself. -/
def Mbox.Stuck (s : Mbox μ) : Prop := ∀ t, s.step (.go t) = none

/-! ### Invariant -/

namespace MboxPc

/-- Places between taking the mutex and giving it back. -/
def inside : MboxPc μ → Bool
  | .postTest .. | .postRefuse | .postRelease _ | .postRetry _ | .postStore _ | .postSignal
  | .postUnlock | .fetchTest _ | .fetchRelease _ | .fetchTake | .fetchSignal | .fetchUnlock => true
  | _ => false

/-- The share of a thread in `wait_send`. -/
def waiting : MboxPc μ → Nat
  | .postRelease _ | .postWait _ | .postRelock _ | .postRetry _ => 1
  | _ => 0

/-- What the last test of a thread has found. -/
def Due (first last : Nat) : MboxPc μ → Prop
  | .postStore _ => last + 1 < first + mboxSize ∧ first + mboxSize ≤ intMax
  | .postRefuse | .postRelease _ => first + mboxSize ≤ last + 1
  | .fetchRelease _ => first = last
  | .fetchTake => first < last
  | _ => True

variable {first last : Nat} {pc : MboxPc μ}

theorem due_of_outside (h : pc.inside = false) : pc.Due first last := by
  cases pc <;> trivial

end MboxPc

/-- The mutex is held by the thread inside, whose test still holds, and `wait_send` counts
the posters that wait. -/
structure MboxSound (first last mutex waitSend : Nat) (pcs : PThread → MboxPc μ) : Prop where
  exclusive : Exclusive mutex (MboxPc.inside ∘ pcs)
  due : ∀ t, (pcs t).Due first last
  tally : Total (MboxPc.waiting ∘ pcs) waitSend
  order : first ≤ last
  room : last < first + mboxSize
  range : last ≤ intMax

/-- `MboxSound` of a mailbox. An overflow is one of the sum in the test for a full box. -/
def Mbox.Sound (s : Mbox μ) : Prop :=
  MboxSound s.first s.last s.mutex s.waitSend s.pcs ∧
    (s.undefined = true → intMax < s.first + mboxSize)

variable {first last mutex waitSend first' last' mutex' waitSend' : Nat}
variable {pcs : PThread → MboxPc μ} {t : PThread} {pc : MboxPc μ} {s s' : Mbox μ}

namespace MboxSound

theorem due_update (h : MboxSound first last mutex waitSend pcs) (hpc : pc.Due first last)
    (u : PThread) : (Function.update pcs t pc u).Due first last := by
  by_cases hu : u = t
  · subst hu
    rwa [Function.update_self]
  · rw [Function.update_of_ne hu]
    exact h.due u

/-- A thread moves, and the mutex and its share of `wait_send` with it. -/
theorem move (h : MboxSound first last mutex waitSend pcs)
    (hexclusive : Exclusive mutex' (Function.update (MboxPc.inside ∘ pcs) t pc.inside))
    (hdue : pc.Due first last) (hwait : waitSend' = waitSend - (pcs t).waiting + pc.waiting) :
    MboxSound first last mutex' waitSend' (Function.update pcs t pc) := by
  refine ⟨?_, h.due_update hdue, ?_, h.order, h.room, h.range⟩
  · rwa [Function.comp_update]
  · rw [Function.comp_update, hwait]
    exact h.tally.update t _

/-- A thread moves outside the mutex. -/
theorem outside (h : MboxSound first last mutex waitSend pcs) (hfrom : (pcs t).inside = false)
    (hto : pc.inside = false) (hwait : pc.waiting = (pcs t).waiting) :
    MboxSound first last mutex waitSend (Function.update pcs t pc) := by
  refine h.move (h.exclusive.stay (hto.trans hfrom.symm)) (MboxPc.due_of_outside hto) ?_
  have := h.tally.le t
  rw [Function.comp_apply] at this
  omega

/-- A thread takes the mutex. -/
theorem enter (h : MboxSound first last mutex waitSend pcs) (hfree : 0 < mutex)
    (hto : pc.inside = true) (hdue : pc.Due first last) (hwait : pc.waiting = (pcs t).waiting) :
    MboxSound first last (mutex - 1) waitSend (Function.update pcs t pc) := by
  refine h.move ?_ hdue ?_
  · rw [hto]
    exact h.exclusive.enter hfree t
  · have := h.tally.le t
    rw [Function.comp_apply] at this
    omega

/-- The thread inside gives the mutex back. -/
theorem leave (h : MboxSound first last mutex waitSend pcs) (hfrom : (pcs t).inside = true)
    (hto : pc.inside = false) (hwait : pc.waiting = (pcs t).waiting) :
    MboxSound first last 1 waitSend (Function.update pcs t pc) := by
  refine h.move ?_ (MboxPc.due_of_outside hto) ?_
  · rw [hto]
    exact h.exclusive.leave hfrom
  · have := h.tally.le t
    rw [Function.comp_apply] at this
    omega

/-- The thread inside goes on. -/
theorem proceed (h : MboxSound first last mutex waitSend pcs) (hfrom : (pcs t).inside = true)
    (hto : pc.inside = true) (hdue : pc.Due first last)
    (hwait : waitSend' = waitSend - (pcs t).waiting + pc.waiting) :
    MboxSound first last mutex waitSend' (Function.update pcs t pc) :=
  h.move (h.exclusive.stay (hto.trans hfrom.symm)) hdue hwait

/-- The thread inside moves a counter: nobody else has tested it. -/
theorem alone (h : MboxSound first last mutex waitSend pcs) (hfrom : (pcs t).inside = true)
    (hto : pc.inside = true) (hdue : pc.Due first' last') (hwait : pc.waiting = 0)
    (hshare : (pcs t).waiting = 0) (horder : first' ≤ last') (hroom : last' < first' + mboxSize)
    (hrange : last' ≤ intMax) :
    MboxSound first' last' mutex waitSend (Function.update pcs t pc) := by
  refine ⟨?_, ?_, ?_, horder, hroom, hrange⟩
  · rw [Function.comp_update]
    exact h.exclusive.stay (hto.trans hfrom.symm)
  · intro u
    by_cases hu : u = t
    · subst hu
      rwa [Function.update_self]
    · rw [Function.update_of_ne hu]
      apply MboxPc.due_of_outside
      by_contra hin
      exact hu (h.exclusive.one (by simpa using hin) hfrom)
  · have := h.tally.update t pc.waiting
    rwa [Function.comp_apply, hshare, hwait, Nat.sub_zero, Nat.add_zero, ← hwait,
      ← Function.comp_update] at this

end MboxSound

namespace Mbox

theorem onMutex_take (h : s.onMutex (.take t) t pc = some s') :
    0 < s.mutex ∧ s' = { s with mutex := s.mutex - 1 }.goto t pc := by
  simp only [onMutex, semStep] at h
  split at h
  · rename_i hc
    exact ⟨hc, (Option.some.inj h).symm⟩
  · cases h

theorem onNotFull_take (h : s.onNotFull (.take t) t pc = some s') :
    0 < s.notFull ∧ s' = { s with notFull := s.notFull - 1 }.goto t pc := by
  simp only [onNotFull, semStep] at h
  split at h
  · rename_i hc
    exact ⟨hc, (Option.some.inj h).symm⟩
  · cases h

theorem onNotEmpty_take (h : s.onNotEmpty (.take t) t pc = some s') :
    0 < s.notEmpty ∧ s' = { s with notEmpty := s.notEmpty - 1 }.goto t pc := by
  simp only [onNotEmpty, semStep] at h
  split at h
  · rename_i hc
    exact ⟨hc, (Option.some.inj h).symm⟩
  · cases h

theorem enter_eq (h : s.enter t pc = some s') : s.pcs t = .idle ∧ s' = s.goto t pc := by
  unfold enter at h
  split at h
  · rename_i hidle
    exact ⟨hidle, (Option.some.inj h).symm⟩
  · cases h

/-- What the test of the posting functions can lead to. -/
theorem testFull_cases (s : Mbox μ) (t : PThread) (m : μ) (wait : Bool) :
    (s.testFull t m wait = { s with undefined := true } ∧
        (intMax < s.first + mboxSize ∨ intMax < s.last + 1)) ∨
      (s.first + mboxSize ≤ intMax ∧ s.first + mboxSize ≤ s.last + 1 ∧
        (s.testFull t m wait = { s with waitSend := s.waitSend + 1 }.goto t (.postRelease m) ∨
          s.testFull t m wait = s.goto t .postRefuse)) ∨
      (s.first + mboxSize ≤ intMax ∧ s.last + 1 < s.first + mboxSize ∧
        s.testFull t m wait = s.goto t (.postStore m)) := by
  unfold testFull
  split
  · rename_i hover
    exact Or.inl ⟨rfl, hover⟩
  · rename_i hover
    have hfit : s.first + mboxSize ≤ intMax := by omega
    split
    · rename_i hfull
      cases wait with
      | true => exact Or.inr (Or.inl ⟨hfit, hfull, Or.inl rfl⟩)
      | false => exact Or.inr (Or.inl ⟨hfit, hfull, Or.inr rfl⟩)
    · rename_i hroom
      exact Or.inr (Or.inr ⟨hfit, by omega, rfl⟩)

/-- The ways a thread goes on. -/
theorem go_sound (h : s.Sound) (hok : s.undefined = false) (hgo : s.go t = some s') :
    s'.Sound := by
  obtain ⟨hs, _⟩ := h
  have hdue := hs.due t
  have keeps : s'.undefined = false → MboxSound s'.first s'.last s'.mutex s'.waitSend s'.pcs →
      s'.Sound := fun hok' hs' => ⟨hs', fun hun => by simp [hok'] at hun⟩
  unfold go at hgo
  split at hgo <;> rename_i hpc <;> rw [hpc] at hdue
  · cases hgo
  · obtain ⟨hfree, rfl⟩ := onMutex_take hgo
    exact keeps hok (hs.enter hfree rfl trivial (by rw [hpc]; rfl))
  · cases hgo
    rename_i m wait
    have hin : (s.pcs t).inside = true := by rw [hpc]; rfl
    obtain ⟨heq, hover⟩ | ⟨_, hfull, heq | heq⟩ | ⟨hfit, hroom, heq⟩ :=
      testFull_cases s t m wait
    · rw [heq]
      refine ⟨hs, fun _ => ?_⟩
      have := hs.room
      have := hs.range
      show intMax < s.first + mboxSize
      omega
    · rw [heq] at keeps ⊢
      exact keeps hok (hs.proceed hin rfl hfull (by rw [hpc]; rfl))
    · rw [heq] at keeps ⊢
      exact keeps hok (hs.proceed hin rfl hfull (by rw [hpc]; rfl))
    · rw [heq] at keeps ⊢
      exact keeps hok (hs.proceed hin rfl ⟨hroom, hfit⟩ (by rw [hpc]; rfl))
  · cases hgo
    exact keeps hok (hs.leave (by rw [hpc]; rfl) rfl (by rw [hpc]; rfl))
  · cases hgo
    exact keeps hok (hs.leave (by rw [hpc]; rfl) rfl (by rw [hpc]; rfl))
  · obtain ⟨_, rfl⟩ := onNotFull_take hgo
    exact keeps hok (hs.outside (by rw [hpc]; rfl) rfl (by rw [hpc]; rfl))
  · obtain ⟨hfree, rfl⟩ := onMutex_take hgo
    exact keeps hok (hs.enter hfree rfl trivial (by rw [hpc]; rfl))
  · cases hgo
    exact keeps hok (hs.proceed (by rw [hpc]; rfl) rfl trivial (by rw [hpc]; rfl))
  · cases hgo
    obtain ⟨hroom, hfit⟩ := hdue
    have horder := hs.order
    refine keeps hok (hs.alone (by rw [hpc]; rfl) ?_ ?_ ?_ (by rw [hpc]; rfl) ?_ ?_ ?_)
    · split <;> rfl
    · split <;> trivial
    · split <;> rfl
    · show s.first ≤ s.last + 1
      omega
    · exact hroom
    · show s.last + 1 ≤ intMax
      omega
  · cases hgo
    exact keeps hok (hs.proceed (by rw [hpc]; rfl) rfl trivial (by rw [hpc]; rfl))
  · cases hgo
    exact keeps hok (hs.leave (by rw [hpc]; rfl) rfl (by rw [hpc]; rfl))
  · obtain ⟨hfree, rfl⟩ := onMutex_take hgo
    exact keeps hok (hs.enter hfree rfl trivial (by rw [hpc]; rfl))
  · cases hgo
    refine keeps hok (hs.proceed (by rw [hpc]; rfl) ?_ ?_ ?_)
    · split <;> rfl
    · have := hs.order
      split
      · rename_i hempty
        exact hempty
      · rename_i hne
        exact Nat.lt_of_le_of_ne this hne
    · rw [hpc]
      split <;> rfl
  · rename_i timeout
    cases hgo
    refine keeps hok (hs.leave (by rw [hpc]; rfl) ?_ ?_)
    · cases timeout <;> rfl
    · rw [hpc]
      cases timeout <;> rfl
  · obtain ⟨_, rfl⟩ := onNotEmpty_take hgo
    exact keeps hok (hs.outside (by rw [hpc]; rfl) rfl (by rw [hpc]; rfl))
  · cases hgo
    have hbelow : s.first < s.last := hdue
    have hroom := hs.room
    refine keeps hok (hs.alone (by rw [hpc]; rfl) ?_ ?_ ?_ (by rw [hpc]; rfl) ?_ ?_ hs.range)
    · split <;> rfl
    · split <;> trivial
    · split <;> rfl
    · exact hbelow
    · show s.last < s.first + 1 + mboxSize
      omega
  · cases hgo
    exact keeps hok (hs.proceed (by rw [hpc]; rfl) rfl trivial (by rw [hpc]; rfl))
  · cases hgo
    exact keeps hok (hs.leave (by rw [hpc]; rfl) rfl (by rw [hpc]; rfl))

theorem enter_sound (h : s.Sound) (henter : s.enter t pc = some s') (hto : pc.inside = false)
    (hwait : pc.waiting = 0) : s'.Sound := by
  obtain ⟨hidle, rfl⟩ := enter_eq henter
  refine ⟨h.1.outside ?_ hto ?_, h.2⟩
  · rw [hidle]
    rfl
  · rw [hidle]
    exact hwait

theorem step_ok {a : MboxAct μ} (h : s.step a = some s') : s.undefined = false := by
  unfold step at h
  split at h
  · cases h
  · rename_i hok
    simpa using hok

/-- `step` of a thread, where nothing has overflowed. -/
theorem step_go (hok : s.undefined = false) : s.step (.go t) = s.go t := by
  simp [step, hok]

/-- A timeout ends the call of a thread that waits for a message. -/
theorem step_expire (h : s.step (.expire t) = some s') :
    ∃ timeout, 0 < timeout ∧ s.pcs t = .fetchWait timeout ∧ s' = s.goto t .idle := by
  have hok := step_ok h
  simp only [step, hok, Bool.false_eq_true, if_false] at h
  split at h
  · rename_i timeout hpc
    split at h
    · rename_i hpos
      exact ⟨timeout, hpos, hpc, (Option.some.inj h).symm⟩
    · cases h
  · cases h

theorem step_sound {a : MboxAct μ} (h : s.Sound) (hstep : s.step a = some s') : s'.Sound := by
  have hok := step_ok hstep
  cases a with
  | go t => exact go_sound h hok (by rwa [step_go hok] at hstep)
  | expire t =>
      obtain ⟨timeout, _, hpc, rfl⟩ := step_expire hstep
      exact ⟨h.1.outside (by rw [hpc]; rfl) rfl (by rw [hpc]; rfl), h.2⟩
  | post t m => exact enter_sound h (by simpa [step, hok] using hstep) rfl rfl
  | trypost t m => exact enter_sound h (by simpa [step, hok] using hstep) rfl rfl
  | fetch t timeout => exact enter_sound h (by simpa [step, hok] using hstep) rfl rfl
  | tryfetch t => exact enter_sound h (by simpa [step, hok] using hstep) rfl rfl

theorem reachable_sound (h : (mbox μ).Reachable s) : s.Sound := by
  refine h.invariant ⟨⟨?_, fun _ => trivial, Total.zero, ?_, ?_, ?_⟩, nofun⟩
    fun s a s' hs hstep => step_sound hs hstep
  · exact Or.inl ⟨rfl, fun _ => rfl⟩
  · show 0 ≤ 0
    omega
  · show 0 < 0 + mboxSize
    decide
  · show 0 ≤ intMax
    omega

end Mbox

/-! ### The ring holds a queue -/

namespace Mbox

/-- The messages in the box, after those that have left. -/
def Holds (s : Mbox μ) (q : Queue μ) : Prop :=
  s.first = q.left ∧ Ring mboxSize s.msgs s.first s.last q.queue

variable {q : Queue μ}

theorem onMutex_holds {op : SemOp} (hq : s.Holds q) (h : s.onMutex op t pc = some s') :
    s'.Holds q := by
  obtain ⟨c, _, rfl⟩ := Option.map_eq_some_iff.mp h
  exact hq

theorem onNotFull_holds {op : SemOp} (hq : s.Holds q) (h : s.onNotFull op t pc = some s') :
    s'.Holds q := by
  obtain ⟨c, _, rfl⟩ := Option.map_eq_some_iff.mp h
  exact hq

theorem onNotEmpty_holds {op : SemOp} (hq : s.Holds q) (h : s.onNotEmpty op t pc = some s') :
    s'.Holds q := by
  obtain ⟨c, _, rfl⟩ := Option.map_eq_some_iff.mp h
  exact hq

theorem testFull_holds {m : μ} {wait : Bool} (hq : s.Holds q) : (s.testFull t m wait).Holds q := by
  obtain ⟨heq, _⟩ | ⟨_, _, heq | heq⟩ | ⟨_, _, heq⟩ := testFull_cases s t m wait <;>
    · rw [heq]
      exact hq

variable [DecidableEq μ]

/-- The thread that stores puts its message at the end of the queue. -/
theorem store_posts {m : μ} (h : s.Sound) (hq : s.Holds q) (hpc : s.pcs t = .postStore m) :
    ∃ q', (mboxSpec μ).step q (.posted t m) = some q' ∧ (s.store t m).Holds q' := by
  have hdue := h.1.due t
  rw [hpc] at hdue
  have hcount := hq.2.count
  have hlt := hdue.1
  unfold mboxSize at hlt
  have hroom : q.queue.length < 127 := by omega
  exact ⟨_, if_pos hroom, hq.1, hq.2.push hdue.1 m⟩

/-- The thread that takes gets the first message of the queue. -/
theorem take_fetches (h : s.Sound) (hq : s.Holds q) (hpc : s.pcs t = .fetchTake) :
    ∃ m q', s.msgs (s.first % mboxSize) = some m ∧
      (mboxSpec μ).step q (.fetched t m) = some q' ∧ (s.take t).Holds q' := by
  have hdue := h.1.due t
  rw [hpc] at hdue
  obtain ⟨left, queue⟩ := q
  obtain ⟨hleft, hring⟩ := hq
  cases queue with
  | nil => exact absurd (hring.empty_iff.mpr rfl) (Nat.ne_of_lt hdue)
  | cons m rest =>
      exact ⟨m, _, hring.head, if_pos rfl, congrArg (· + 1) hleft, hring.pop⟩

/-- Only the marked steps touch the queue, each as its operation says. -/
theorem go_matches (h : s.Sound) (hq : s.Holds q) (hgo : s.go t = some s') :
    Machine.Matches (mboxSpec μ) Holds s' q (s.shows (.go t)) := by
  have hdue := h.1.due t
  unfold go at hgo
  split at hgo <;> rename_i hpc <;> simp only [shows, hpc, Machine.Matches]
  · cases hgo
  · exact onMutex_holds hq hgo
  · cases hgo
    exact testFull_holds hq
  · rw [hpc] at hdue
    have hfull : q.queue.length = 127 := Nat.succ.inj (hq.2.full_iff.mp hdue)
    exact ⟨q, if_pos hfull, onMutex_holds hq hgo⟩
  · exact onMutex_holds hq hgo
  · exact onNotFull_holds hq hgo
  · exact onMutex_holds hq hgo
  · cases hgo
    exact hq
  · cases hgo
    exact store_posts h hq hpc
  · exact onNotEmpty_holds hq hgo
  · exact onMutex_holds hq hgo
  · exact onMutex_holds hq hgo
  · cases hgo
    exact hq
  · rename_i timeout
    cases timeout with
    | none =>
        rw [hpc] at hdue
        exact ⟨q, if_pos (hq.2.empty_iff.mp hdue), onMutex_holds hq hgo⟩
    | some timeout => exact onMutex_holds hq hgo
  · exact onNotEmpty_holds hq hgo
  · cases hgo
    obtain ⟨m, q', hm, hspec, hholds⟩ := take_fetches h hq hpc
    rw [hm]
    exact ⟨q', hspec, hholds⟩
  · exact onNotFull_holds hq hgo
  · exact onMutex_holds hq hgo

/-- The ring under its mutex is the queue its users see. -/
def simulates : Machine.Simulation (mbox μ) (mboxSpec μ) Mbox.shows where
  rel := Holds
  start := ⟨rfl, Ring.empty (by decide) _ 0⟩
  step := by
    intro s a s' q hreach hq hstep
    change s.step a = some s' at hstep
    have hok := step_ok hstep
    cases a with
    | go t => exact go_matches (reachable_sound hreach) hq (by rwa [step_go hok] at hstep)
    | expire t =>
        obtain ⟨timeout, _, _, rfl⟩ := step_expire hstep
        exact hq
    | post t m =>
        obtain ⟨_, rfl⟩ := enter_eq (by simpa [step, hok] using hstep)
        exact hq
    | trypost t m =>
        obtain ⟨_, rfl⟩ := enter_eq (by simpa [step, hok] using hstep)
        exact hq
    | fetch t timeout =>
        obtain ⟨_, rfl⟩ := enter_eq (by simpa [step, hok] using hstep)
        exact hq
    | tryfetch t =>
        obtain ⟨_, rfl⟩ := enter_eq (by simpa [step, hok] using hstep)
        exact hq

end Mbox

/-- An operation appends what it posts and takes what it fetches from the front. -/
theorem mboxSpec_step [DecidableEq μ] {q q' : Queue μ} {op : MboxOp μ}
    (h : (mboxSpec μ).step q op = some q') :
    q.queue ++ postedIn [op] = fetchedIn [op] ++ q'.queue ∧
      q'.left = q.left + (fetchedIn [op]).length ∧
      (q.queue.length ≤ 127 → q'.queue.length ≤ 127) := by
  cases op with
  | posted t m =>
      obtain ⟨hroom, hq⟩ := Option.ite_none_right_eq_some.mp h
      cases hq
      refine ⟨rfl, rfl, fun _ => ?_⟩
      rw [List.length_append, List.length_singleton]
      omega
  | fetched t m =>
      obtain ⟨left, queue⟩ := q
      cases queue with
      | nil => cases h
      | cons m' rest =>
          obtain ⟨rfl, hq⟩ := Option.ite_none_right_eq_some.mp h
          cases hq
          exact ⟨List.append_nil _, rfl, Nat.le_of_succ_le⟩
  | foundFull t =>
      obtain ⟨_, hq⟩ := Option.ite_none_right_eq_some.mp h
      cases hq
      exact ⟨List.append_nil _, rfl, id⟩
  | foundEmpty t =>
      obtain ⟨_, hq⟩ := Option.ite_none_right_eq_some.mp h
      cases hq
      exact ⟨List.append_nil _, rfl, id⟩

/-- What has been posted has been fetched or waits, in order. -/
theorem mboxSpec_fifo [DecidableEq μ] {tr : List (Queue μ × MboxOp μ)} {q : Queue μ}
    (h : (mboxSpec μ).Run tr q) :
    postedIn (tr.map Prod.snd) = fetchedIn (tr.map Prod.snd) ++ q.queue ∧
      (fetchedIn (tr.map Prod.snd)).length = q.left ∧ q.queue.length ≤ 127 := by
  induction h with
  | start => exact ⟨rfl, rfl, Nat.zero_le _⟩
  | @step tr q q' op _ hstep ih =>
      obtain ⟨hposted, hleft, hroom⟩ := ih
      obtain ⟨hqueue, hmore, hkeeps⟩ := mboxSpec_step hstep
      have hsnoc : (tr ++ [(q, op)]).map Prod.snd = tr.map Prod.snd ++ [op] := List.map_append
      refine ⟨?_, ?_, hkeeps hroom⟩
      · calc postedIn ((tr ++ [(q, op)]).map Prod.snd)
            = postedIn (tr.map Prod.snd) ++ postedIn [op] := by
              rw [hsnoc, postedIn, List.filterMap_append]
              rfl
          _ = fetchedIn (tr.map Prod.snd) ++ (fetchedIn [op] ++ q'.queue) := by
              rw [hposted, List.append_assoc, hqueue]
          _ = fetchedIn ((tr ++ [(q, op)]).map Prod.snd) ++ q'.queue := by
              rw [hsnoc, ← List.append_assoc, fetchedIn, fetchedIn, fetchedIn,
                List.filterMap_append]
      · rw [hsnoc, fetchedIn, List.filterMap_append, List.length_append, hmore, ← hleft]
        rfl

/-- However posters and fetchers interleave, the mailbox is a queue of at most 127 messages:
every message is fetched once and in the order of posting, a refusal is of a full box and an
empty answer of an empty one. One thread at a time is at the counters, and they overflow
only after the messages that left fill all but 127 values of an `int`. -/
theorem run_fifo [DecidableEq μ] {tr : List (Mbox μ × MboxAct μ)} (hrun : (mbox μ).Run tr s) :
    ∃ tr' q, (mboxSpec μ).Run tr' q ∧ tr'.map Prod.snd = Machine.shown Mbox.shows tr ∧
      postedIn (Machine.shown Mbox.shows tr) =
        fetchedIn (Machine.shown Mbox.shows tr) ++ q.queue ∧
      s.first = (fetchedIn (Machine.shown Mbox.shows tr)).length ∧
      s.last = s.first + q.queue.length ∧ q.queue.length ≤ 127 ∧
      (∀ t u, (s.pcs t).inside = true → (s.pcs u).inside = true → t = u) ∧
      (s.undefined = true → intMax < s.first + mboxSize) := by
  obtain ⟨tr', q, habs, ⟨hleft, hring⟩, hshown⟩ := Mbox.simulates.run hrun
  obtain ⟨hfifo, hcount, hroom⟩ := mboxSpec_fifo habs
  rw [hshown] at hfifo hcount
  obtain ⟨hsound, hover⟩ := Mbox.reachable_sound hrun.reachable
  exact ⟨tr', q, habs, hshown, hfifo, hleft.trans hcount.symm, hring.count, hroom,
    fun t u ht hu => hsound.exclusive.one ht hu, hover⟩

/-- Two posters and a fetcher take turns at the mutex. -/
theorem run_fifo_two : ∃ tr s, (mbox Nat).Run tr s ∧ s.first = 1 ∧ s.last = 2 ∧
    ∃ q, postedIn (Machine.shown Mbox.shows tr) =
      fetchedIn (Machine.shown Mbox.shows tr) ++ q ∧ q.length = 1 := by
  obtain ⟨tr, s, hrun, _, htest⟩ := Machine.exists_run_of_exec (mbox Nat) (fun _ _ => true)
    [.post 0 5, .trypost 1 6, .tryfetch 2, .go 1, .go 1, .go 1, .go 1, .go 1, .go 0, .go 0,
      .go 0, .go 0, .go 2, .go 2, .go 2, .go 2]
    (fun s => s.first = 1 ∧ s.last = 2) (by decide)
  obtain ⟨hfirst, hlast⟩ := of_decide_eq_true htest
  obtain ⟨_, q, _, _, hfifo, _, hcount, _⟩ := run_fifo hrun
  exact ⟨tr, s, hrun, hfirst, hlast, q.queue, hfifo, by omega⟩

end SysArch

end LwipCs
