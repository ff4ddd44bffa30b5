import LwipCs.Interleave.Reentrant
import LwipCs.Interleave.Simulation
import LwipCs.SysArch.Sem

/-!
# Critical sections

`sys_arch_protect` and `sys_arch_unprotect` build a reentrant lock from a plain mutex.
`lwprot_thread` is compared before the mutex is taken, while other threads write it. Each
read and write of a shared variable is a step of its own, and each is taken to be atomic.
-/

namespace LwipCs

namespace SysArch

open Interleave

/-- Where a thread stands in `sys_arch_protect` or `sys_arch_unprotect`. -/
inductive ProtPc
  | idle
  /-- before `lwprot_thread != pthread_self()` -/
  | test
  | lock
  /-- before `lwprot_thread = pthread_self()` -/
  | own
  /-- before `lwprot_count = 1` -/
  | one
  /-- in `lwprot_count++`, before the value is read and after -/
  | inc
  | incStore (n : Int)
  /-- before `lwprot_thread == pthread_self()` -/
  | retest
  /-- in `lwprot_count--` -/
  | dec
  | decStore (n : Int)
  /-- before `lwprot_count == 0` -/
  | check
  /-- before `lwprot_thread = (pthread_t) 0xDEAD` -/
  | disown
  | unlock
  deriving DecidableEq, Repr

/-- `lwprot_mutex` with its holder, `lwprot_thread`, none for 0xDEAD, and `lwprot_count`. -/
structure Prot where
  mutex : Option PThread
  thread : Option PThread
  count : Int
  pcs : PThread → ProtPc

/-- Calls, and steps of threads. -/
inductive ProtAct
  | protect (t : PThread)
  | unprotect (t : PThread)
  | go (t : PThread)
  deriving DecidableEq, Repr

namespace Prot

@[simps -fullyApplied]
def goto (s : Prot) (t : PThread) (pc : ProtPc) : Prot :=
  { s with pcs := Function.update s.pcs t pc }

/-- The next step of a thread. -/
def go (s : Prot) (t : PThread) : Option Prot :=
  match s.pcs t with
  | .idle => none
  | .test => some (s.goto t (if s.thread ≠ some t then .lock else .inc))
  | .lock => if s.mutex = none then some ({ s with mutex := some t }.goto t .own) else none
  | .own => some ({ s with thread := some t }.goto t .one)
  | .one => some ({ s with count := 1 }.goto t .idle)
  | .inc => some (s.goto t (.incStore s.count))
  | .incStore n => some ({ s with count := n + 1 }.goto t .idle)
  | .retest => some (s.goto t (if s.thread = some t then .dec else .idle))
  | .dec => some (s.goto t (.decStore s.count))
  | .decStore n => some ({ s with count := n - 1 }.goto t .check)
  | .check => some (s.goto t (if s.count = 0 then .disown else .idle))
  | .disown => some ({ s with thread := none }.goto t .unlock)
  | .unlock => some ({ s with mutex := none }.goto t .idle)

def step (s : Prot) : ProtAct → Option Prot
  | .protect t => if s.pcs t = .idle then some (s.goto t .test) else none
  | .unprotect t => if s.pcs t = .idle then some (s.goto t .retest) else none
  | .go t => s.go t

/-- No thread can go on by itself. -/
def Stuck (s : Prot) : Prop := ∀ t, s.go t = none

/-- An addition to `lwprot_count` leaves the range of `int`. -/
def Overflows (s : Prot) (t : PThread) : Prop := ∃ n, s.pcs t = .incStore n ∧ (intMax : Int) < n + 1

end Prot

def prot : Machine Prot ProtAct := ⟨⟨none, none, 0, fun _ => .idle⟩, Prot.step⟩

/-! ### The critical section as its users see it -/

/-- The holder has entered as often as the counter says, but the first entry is not counted
yet, or the last is counted off before the mutex is given back. -/
def ProtPc.entered (count : Int) : ProtPc → Nat
  | .own | .one | .disown | .unlock => 1
  | .check => if count = 0 then 1 else count.toNat
  | _ => count.toNat

def Prot.holder (s : Prot) : Reentrant PThread :=
  s.mutex.map fun t => (t, (s.pcs t).entered s.count)

/-- The step of a call that counts. -/
def Prot.shows (s : Prot) : ProtAct → Option (LockOp PThread)
  | .go t =>
      match s.pcs t with
      | .lock => some (.enter t)
      | .incStore _ => some (.enter t)
      | .retest => if s.thread = some t then none else some (.spare t)
      | .decStore n => if n = 1 then none else some (.leave t)
      | .unlock => some (.leave t)
      | _ => none
  | _ => none

/-! ### Invariant -/

/-- Places of a thread that does not have the mutex. -/
def ProtPc.outside : ProtPc → Bool
  | .idle | .test | .lock | .retest => true
  | _ => false

/-- What the holder of the mutex finds in the shared variables. -/
def ProtPc.finds (t : PThread) (thread : Option PThread) (count : Int) : ProtPc → Prop
  | .lock => False
  | .own | .unlock => thread = none
  | .one => thread = some t
  | .incStore n | .decStore n => thread = some t ∧ count = n ∧ 0 < n
  | .check => thread = some t ∧ 0 ≤ count
  | .disown => thread = some t ∧ count = 0
  | .idle | .test | .retest | .inc | .dec => thread = some t ∧ 0 < count

/-- Of the threads only the holder of the mutex finds itself in `lwprot_thread`. -/
def ProtSound (mutex thread : Option PThread) (count : Int) (pcs : PThread → ProtPc) : Prop :=
  ∀ t, (mutex = some t → (pcs t).finds t thread count) ∧
    (mutex ≠ some t → (pcs t).outside = true ∧ thread ≠ some t)

abbrev Prot.Sound (s : Prot) : Prop := ProtSound s.mutex s.thread s.count s.pcs

variable {mutex thread thread' : Option PThread} {count count' : Int} {pcs : PThread → ProtPc}
variable {t : PThread} {pc : ProtPc} {s s' : Prot}

namespace ProtSound

/-- The holder goes on. -/
theorem proceed (h : ProtSound (some t) thread count pcs)
    (hthread : ∀ u, u ≠ t → thread ≠ some u → thread' ≠ some u)
    (hfinds : pc.finds t thread' count') :
    ProtSound (some t) thread' count' (Function.update pcs t pc) := by
  intro u
  by_cases hu : u = t
  · subst hu
    rw [Function.update_self]
    exact ⟨fun _ => hfinds, fun hne => absurd rfl hne⟩
  · rw [Function.update_of_ne hu]
    refine ⟨fun heq => absurd (Option.some.inj heq).symm hu, fun hne => ?_⟩
    obtain ⟨hout, hother⟩ := (h u).2 hne
    exact ⟨hout, hthread u hu hother⟩

/-- A thread takes the free mutex. -/
theorem acquire (h : ProtSound none thread count pcs) (hfinds : pc.finds t thread count) :
    ProtSound (some t) thread count (Function.update pcs t pc) := by
  intro u
  obtain ⟨hout, hother⟩ := (h u).2 nofun
  by_cases hu : u = t
  · subst hu
    rw [Function.update_self]
    exact ⟨fun _ => hfinds, fun hne => absurd rfl hne⟩
  · rw [Function.update_of_ne hu]
    exact ⟨fun heq => absurd (Option.some.inj heq).symm hu, fun _ => ⟨hout, hother⟩⟩

/-- The holder, which has cleared `lwprot_thread`, gives the mutex back. -/
theorem release (h : ProtSound (some t) none count pcs) (hout : pc.outside = true) :
    ProtSound none none count (Function.update pcs t pc) := by
  intro u
  refine ⟨nofun, fun _ => ?_⟩
  by_cases hu : u = t
  · subst hu
    rw [Function.update_self]
    exact ⟨hout, nofun⟩
  · rw [Function.update_of_ne hu]
    exact (h u).2 fun heq => hu (Option.some.inj heq).symm

/-- A thread without the mutex moves. -/
theorem wander (h : ProtSound mutex thread count pcs) (hnot : mutex ≠ some t)
    (hout : pc.outside = true) : ProtSound mutex thread count (Function.update pcs t pc) := by
  intro u
  by_cases hu : u = t
  · subst hu
    rw [Function.update_self]
    exact ⟨fun heq => absurd heq hnot, fun _ => ⟨hout, ((h u).2 hnot).2⟩⟩
  · rw [Function.update_of_ne hu]
    exact h u

/-- Where the mutex is free nobody is in `lwprot_thread`. -/
theorem thread_of_free (h : ProtSound none thread count pcs) : thread = none := by
  cases thread with
  | none => rfl
  | some u => exact absurd rfl ((h u).2 nofun).2

end ProtSound

namespace Prot

/-- A thread past the first test of its call has the mutex. -/
theorem Sound.held (h : s.Sound) (hin : (s.pcs t).outside = false) : s.mutex = some t := by
  by_contra hne
  rw [((h t).2 hne).1] at hin
  cases hin

/-- The state after the holder has written `thread` and `count` and gone to `pc`. -/
def advance (s : Prot) (t : PThread) (thread : Option PThread) (count : Int) (pc : ProtPc) :
    Prot :=
  { s with thread := thread, count := count }.goto t pc

theorem holder_of_mutex (hmutex : s.mutex = some t) :
    s.holder = some (t, (s.pcs t).entered s.count) := by
  rw [holder, hmutex, Option.map_some]

theorem holder_advance (hmutex : s.mutex = some t) :
    (s.advance t thread' count' pc).holder = some (t, pc.entered count') := by
  have hmutex' : (s.advance t thread' count' pc).mutex = some t := hmutex
  rw [holder_of_mutex hmutex']
  show some (t, (Function.update s.pcs t pc t).entered count') = _
  rw [Function.update_self]

/-- The holder advances. -/
theorem Sound.advance (h : s.Sound) (hmutex : s.mutex = some t)
    (hthread : thread' = s.thread ∨ thread' = some t ∨ thread' = none)
    (hfinds : pc.finds t thread' count') : (s.advance t thread' count' pc).Sound := by
  have hs : ProtSound (some t) s.thread s.count s.pcs := hmutex ▸ h
  have hkeep : ∀ u, u ≠ t → s.thread ≠ some u → thread' ≠ some u := by
    intro u hu hne
    obtain rfl | rfl | rfl := hthread
    · exact hne
    · exact fun heq => hu (Option.some.inj heq).symm
    · exact nofun
  show ProtSound s.mutex thread' count' (Function.update s.pcs t pc)
  rw [hmutex]
  exact hs.proceed hkeep hfinds

/-- A thread that has not the mutex moves on without it. -/
theorem Sound.pass (h : s.Sound) (hnot : s.mutex ≠ some t) (hout : pc.outside = true) :
    (s.goto t pc).Sound ∧ (s.goto t pc).holder = s.holder := by
  refine ⟨ProtSound.wander h hnot hout, ?_⟩
  cases hmutex : s.mutex with
  | none => simp [holder, hmutex]
  | some u =>
      have hu : u ≠ t := fun heq => hnot (hmutex.trans (congrArg some heq))
      simp [holder, hmutex, hu]

/-- The effect of a step on the lock of the specification. -/
abbrev Keeps (s s' : Prot) : Option (LockOp PThread) → Prop :=
  fun op => s'.Sound ∧
    Machine.Matches (Reentrant.lock PThread) (fun s u => s.holder = u) s' s.holder op

theorem Sound.silent (h : s.Sound) (hmutex : s.mutex = some t)
    (hthread : thread' = s.thread ∨ thread' = some t ∨ thread' = none)
    (hfinds : pc.finds t thread' count')
    (hentered : pc.entered count' = (s.pcs t).entered s.count) :
    Keeps s (s.advance t thread' count' pc) none := by
  refine ⟨h.advance hmutex hthread hfinds, ?_⟩
  show (s.advance t thread' count' pc).holder = s.holder
  rw [holder_advance hmutex, holder_of_mutex hmutex, hentered]

theorem Sound.lock (h : s.Sound) (hfree : s.mutex = none) :
    Keeps s ({ s with mutex := some t }.goto t .own) (some (.enter t)) := by
  have hs : ProtSound none s.thread s.count s.pcs := hfree ▸ h
  refine ⟨hs.acquire hs.thread_of_free, some (t, 1), ?_, ?_⟩
  · rw [holder, hfree]
    rfl
  · simp [holder, ProtPc.entered]

theorem Sound.reenter (h : s.Sound) {n : Int} (hpc : s.pcs t = .incStore n) :
    Keeps s ({ s with count := n + 1 }.goto t .idle) (some (.enter t)) := by
  have hmutex := h.held (t := t) (by rw [hpc]; rfl)
  have hfinds := (h t).1 hmutex
  rw [hpc] at hfinds
  obtain ⟨hthread, hcount, hpos⟩ := hfinds
  refine ⟨h.advance hmutex (Or.inl rfl) ⟨hthread, by omega⟩, some (t, s.count.toNat + 1), ?_, ?_⟩
  · rw [holder_of_mutex hmutex, hpc]
    exact if_pos rfl
  · refine (holder_advance hmutex).trans ?_
    show some (t, (n + 1).toNat) = _
    rw [hcount, Int.toNat_add (by omega) (by omega)]
    rfl

theorem Sound.countOff (h : s.Sound) {n : Int} (hpc : s.pcs t = .decStore n) :
    Keeps s ({ s with count := n - 1 }.goto t .check)
      (if n = 1 then none else some (.leave t)) := by
  have hmutex := h.held (t := t) (by rw [hpc]; rfl)
  have hfinds := (h t).1 hmutex
  rw [hpc] at hfinds
  obtain ⟨hthread, hcount, hpos⟩ := hfinds
  have hnext : ProtPc.check.finds t s.thread (n - 1) := ⟨hthread, by omega⟩
  by_cases hone : n = 1
  · rw [if_pos hone]
    refine h.silent hmutex (Or.inl rfl) hnext ?_
    rw [hpc]
    show (if n - 1 = 0 then 1 else (n - 1).toNat) = s.count.toNat
    rw [if_pos (by omega)]
    omega
  · rw [if_neg hone]
    refine ⟨h.advance hmutex (Or.inl rfl) hnext, some (t, s.count.toNat - 1), ?_, ?_⟩
    · rw [holder_of_mutex hmutex, hpc]
      show (if t = t then some (if s.count.toNat ≤ 1 then none else _) else none) = _
      rw [if_pos rfl, if_neg (by omega)]
      rfl
    · refine (holder_advance hmutex).trans ?_
      show some (t, if n - 1 = 0 then 1 else (n - 1).toNat) = _
      rw [if_neg (by omega), show (n - 1).toNat = s.count.toNat - 1 by omega]

theorem Sound.giveBack (h : s.Sound) (hpc : s.pcs t = .unlock) :
    Keeps s ({ s with mutex := none }.goto t .idle) (some (.leave t)) := by
  have hmutex := h.held (t := t) (by rw [hpc]; rfl)
  have hthread := (h t).1 hmutex
  rw [hpc] at hthread
  have hs : ProtSound (some t) none s.count s.pcs := by
    have hthread : s.thread = none := hthread
    rw [← hmutex, ← hthread]
    exact h
  have hnone : ProtSound none s.thread s.count (Function.update s.pcs t .idle) := by
    rw [show s.thread = none from hthread]
    exact hs.release rfl
  refine ⟨hnone, none, ?_, rfl⟩
  rw [holder_of_mutex hmutex, hpc]
  exact if_pos rfl

/-- Each step of a thread is silent on the lock, or is the operation it shows. -/
theorem go_keeps (h : s.Sound) (hgo : s.go t = some s') : Keeps s s' (s.shows (.go t)) := by
  have finds : ∀ {pc}, s.pcs t = pc → pc.outside = false →
      s.mutex = some t ∧ pc.finds t s.thread s.count := by
    rintro pc hpc hin
    have hmutex := h.held (hpc ▸ hin)
    exact ⟨hmutex, hpc ▸ (h t).1 hmutex⟩
  unfold go at hgo
  split at hgo <;> rename_i hpc <;> simp only [shows, hpc]
  · cases hgo
  · cases hgo
    by_cases hmutex : s.mutex = some t
    · have hfinds := (h t).1 hmutex
      rw [hpc] at hfinds
      rw [if_neg (fun hne => hne hfinds.1)]
      exact h.silent hmutex (Or.inl rfl) hfinds (by rw [hpc]; rfl)
    · rw [if_pos ((h t).2 hmutex).2]
      exact h.pass hmutex rfl
  · split at hgo
    · rename_i hfree
      cases hgo
      exact h.lock hfree
    · cases hgo
  · cases hgo
    obtain ⟨hmutex, _⟩ := finds hpc rfl
    exact h.silent hmutex (Or.inr (Or.inl rfl)) rfl (by rw [hpc]; rfl)
  · cases hgo
    obtain ⟨hmutex, hthread⟩ := finds hpc rfl
    exact h.silent hmutex (Or.inl rfl) ⟨hthread, Int.one_pos⟩ (by rw [hpc]; rfl)
  · cases hgo
    obtain ⟨hmutex, hthread, hpos⟩ := finds hpc rfl
    exact h.silent hmutex (Or.inl rfl) ⟨hthread, rfl, hpos⟩ (by rw [hpc]; rfl)
  · cases hgo
    exact h.reenter hpc
  · cases hgo
    by_cases hmutex : s.mutex = some t
    · have hfinds := (h t).1 hmutex
      rw [hpc] at hfinds
      rw [if_pos hfinds.1, if_pos hfinds.1]
      exact h.silent hmutex (Or.inl rfl) hfinds (by rw [hpc]; rfl)
    · have hother := ((h t).2 hmutex).2
      rw [if_neg hother, if_neg hother]
      obtain ⟨hsound, hholder⟩ : (s.goto t .idle).Sound ∧ (s.goto t .idle).holder = s.holder :=
        h.pass hmutex rfl
      refine ⟨hsound, s.holder, ?_, hholder⟩
      have hdepth : s.holder.depth t = 0 := by
        cases hm : s.mutex with
        | none => rw [holder, hm]; rfl
        | some u =>
            rw [holder_of_mutex hm]
            exact if_neg fun heq => hmutex (hm.trans (congrArg some heq))
      cases hh : s.holder with
      | none => rfl
      | some x =>
          rw [hh] at hdepth
          exact if_pos hdepth
  · cases hgo
    obtain ⟨hmutex, hthread, hpos⟩ := finds hpc rfl
    exact h.silent hmutex (Or.inl rfl) ⟨hthread, rfl, hpos⟩ (by rw [hpc]; rfl)
  · cases hgo
    exact h.countOff hpc
  · cases hgo
    obtain ⟨hmutex, hthread, hnonneg⟩ := finds hpc rfl
    split
    · rename_i hzero
      refine h.silent hmutex (Or.inl rfl) ⟨hthread, hzero⟩ ?_
      rw [hpc]
      exact (if_pos hzero).symm
    · rename_i hne
      refine h.silent hmutex (Or.inl rfl) ⟨hthread, by omega⟩ ?_
      rw [hpc]
      exact (if_neg hne).symm
  · cases hgo
    obtain ⟨hmutex, _⟩ := finds hpc rfl
    exact h.silent hmutex (Or.inr (Or.inr rfl)) rfl (by rw [hpc]; rfl)
  · cases hgo
    exact h.giveBack hpc

/-- A thread between calls makes one. -/
theorem Sound.call (h : s.Sound) (hidle : s.pcs t = .idle)
    (hpc : pc = .test ∨ pc = .retest) : Keeps s (s.goto t pc) none := by
  by_cases hmutex : s.mutex = some t
  · have hfinds := (h t).1 hmutex
    rw [hidle] at hfinds
    refine h.silent hmutex (Or.inl rfl) ?_ ?_
    · obtain rfl | rfl := hpc <;> exact hfinds
    · rw [hidle]
      obtain rfl | rfl := hpc <;> rfl
  · refine h.pass hmutex ?_
    obtain rfl | rfl := hpc <;> rfl

theorem step_keeps {a : ProtAct} (h : s.Sound) (hstep : s.step a = some s') :
    Keeps s s' (s.shows a) := by
  cases a with
  | protect t =>
      simp only [step] at hstep
      split at hstep
      · rename_i hidle
        cases hstep
        exact h.call hidle (Or.inl rfl)
      · cases hstep
  | unprotect t =>
      simp only [step] at hstep
      split at hstep
      · rename_i hidle
        cases hstep
        exact h.call hidle (Or.inr rfl)
      · cases hstep
  | go t => exact go_keeps h hstep

theorem reachable_sound (h : prot.Reachable s) : s.Sound := by
  refine h.invariant ?_ fun s a s' hs hstep => (step_keeps hs hstep).1
  exact fun _ => ⟨nofun, fun _ => ⟨rfl, nofun⟩⟩

/-- The mutex, the thread and the counter are the reentrant lock their users see. -/
def simulates : Machine.Simulation prot (Reentrant.lock PThread) Prot.shows where
  rel s u := s.holder = u
  start := rfl
  step := by
    rintro s a s' _ hreach rfl hstep
    exact (step_keeps (reachable_sound hreach) hstep).2

/-! ### Results -/

/-- How often a thread is inside after a run: its entries less its leaves. -/
def inside (tr : List (Prot × ProtAct)) (t : PThread) : Int :=
  Reentrant.balance t (Machine.shown Prot.shows tr)

/-- A thread that cannot go on is between calls, or waits for the mutex. -/
theorem go_none (h : s.go t = none) : s.pcs t = .idle ∨ s.pcs t = .lock ∧ s.mutex ≠ none := by
  unfold go at h
  split at h <;> rename_i hpc
  · exact Or.inl hpc
  · cases h
  · split at h
    · cases h
    · rename_i hheld
      exact Or.inr ⟨hpc, hheld⟩
  all_goals cases h

/-- The holder of the mutex does not wait for it. -/
theorem Sound.holder_goes (h : s.Sound) (hmutex : s.mutex = some t) (hgo : s.go t = none) :
    s.pcs t = .idle := by
  obtain hidle | ⟨hlock, _⟩ := go_none hgo
  · exact hidle
  · have hfinds := (h t).1 hmutex
    rw [hlock] at hfinds
    exact absurd hfinds id

theorem mutex_of_depth (h : 0 < s.holder.depth t) : s.mutex = some t := by
  cases hm : s.mutex with
  | none =>
      rw [holder, hm] at h
      exact absurd h (Nat.lt_irrefl 0)
  | some u =>
      rw [holder_of_mutex hm] at h
      by_cases hu : u = t
      · rw [hu]
      · rw [show Reentrant.depth t (some (u, _)) = 0 from if_neg hu] at h
        exact absurd h (Nat.lt_irrefl 0)

theorem depth_of_mutex (h : s.mutex = some t) :
    s.holder.depth t = (s.pcs t).entered s.count := by
  rw [holder_of_mutex h]
  exact if_pos rfl

/-- A holder between calls has entered as often as the counter says. -/
theorem Sound.idle_depth (h : s.Sound) (hmutex : s.mutex = some t) (hidle : s.pcs t = .idle) :
    s.thread = some t ∧ 0 < s.count ∧ (s.holder.depth t : Int) = s.count := by
  have hfinds := (h t).1 hmutex
  rw [hidle] at hfinds
  obtain ⟨hthread, hpos⟩ := hfinds
  refine ⟨hthread, hpos, ?_⟩
  rw [depth_of_mutex hmutex, hidle]
  exact Int.toNat_of_nonneg (Int.le_of_lt hpos)

theorem run_inside {tr : List (Prot × ProtAct)} (hrun : prot.Run tr s) :
    (∃ tr', (Reentrant.lock PThread).Run tr' s.holder ∧
      tr'.map Prod.snd = Machine.shown Prot.shows tr) ∧
    ∀ t, (s.holder.depth t : Int) = inside tr t := by
  obtain ⟨tr', u, habs, hrel, hshown⟩ := simulates.run hrun
  obtain rfl : s.holder = u := hrel
  refine ⟨⟨tr', habs, hshown⟩, fun t => ?_⟩
  rw [inside, ← hshown]
  exact (Reentrant.run_depth habs).2 t

/-- Under every interleaving the two calls are a reentrant lock: one thread at a time is
inside, it reenters and leaves without waiting, `lwprot_count` counts its entries, and a
thread waits only for another that is inside and between calls. The counter overflows at the
entry after `INT_MAX` of them. -/
theorem run_protect {tr : List (Prot × ProtAct)} (hrun : prot.Run tr s) :
    (∃ tr', (Reentrant.lock PThread).Run tr' s.holder ∧
      tr'.map Prod.snd = Machine.shown Prot.shows tr) ∧
    (∀ t u, 0 < inside tr t → 0 < inside tr u → t = u) ∧
    (∀ t, 0 < inside tr t → s.pcs t = .idle → s.thread = some t ∧ s.count = inside tr t) ∧
    (∀ t, 0 < inside tr t → s.go t = none → s.pcs t = .idle) ∧
    (∀ t, s.go t = none → s.pcs t = .idle ∨ s.pcs t = .lock ∧ s.mutex ≠ none) ∧
    (s.Stuck → ∀ t, s.pcs t = .lock → ∃ u, u ≠ t ∧ s.pcs u = .idle ∧ 0 < inside tr u) ∧
    (∀ t n, s.pcs t = .incStore n → (s.Overflows t ↔ (intMax : Int) < inside tr t + 1)) := by
  have hsound := reachable_sound hrun.reachable
  obtain ⟨hspec, hinside⟩ := run_inside hrun
  have held : ∀ {t}, 0 < inside tr t → s.mutex = some t := by
    intro t ht
    rw [← hinside t] at ht
    exact mutex_of_depth (by omega)
  refine ⟨hspec, ?_, ?_, ?_, fun t => go_none, ?_, ?_⟩
  · intro t u ht hu
    rw [← hinside] at ht hu
    exact Reentrant.eq_of_depth_pos (by omega : 0 < s.holder.depth t) (by omega)
  · intro t ht hidle
    obtain ⟨hthread, _, hdepth⟩ := hsound.idle_depth (held ht) hidle
    exact ⟨hthread, by rw [← hinside, hdepth]⟩
  · exact fun t ht => hsound.holder_goes (held ht)
  · intro hstuck t ht
    have hwaits : s.mutex ≠ none := by
      obtain hidle | ⟨_, hheld⟩ := go_none (hstuck t)
      · rw [ht] at hidle
        cases hidle
      · exact hheld
    obtain ⟨u, hmutex⟩ := Option.ne_none_iff_exists'.mp hwaits
    have hidle := hsound.holder_goes hmutex (hstuck u)
    obtain ⟨_, hpos, hdepth⟩ := hsound.idle_depth hmutex hidle
    refine ⟨u, ?_, hidle, by rw [← hinside, hdepth]; exact hpos⟩
    rintro rfl
    rw [ht] at hidle
    cases hidle
  · intro t n hpc
    have hmutex := hsound.held (t := t) (by rw [hpc]; rfl)
    have hfinds := (hsound t).1 hmutex
    rw [hpc] at hfinds
    obtain ⟨_, hcount, hpos⟩ := hfinds
    have hdepth : inside tr t = n := by
      rw [← hinside, depth_of_mutex hmutex, hpc, ← hcount]
      exact Int.toNat_of_nonneg (by omega)
    rw [hdepth]
    constructor
    · rintro ⟨m, hm, hlarge⟩
      rw [hpc] at hm
      cases hm
      exact hlarge
    · exact fun hlarge => ⟨n, hpc, hlarge⟩

/-- A thread enters twice and leaves once; another waits for it. -/
theorem run_protect_nested : ∃ tr s, prot.Run tr s ∧ s.pcs 0 = .idle ∧ s.count = 1 ∧
    s.pcs 1 = .lock ∧ (∀ t u, 0 < inside tr t → 0 < inside tr u → t = u) := by
  obtain ⟨tr, s, hrun, _, htest⟩ := Machine.exists_run_of_exec prot (fun _ _ => true)
    [.protect 0, .go 0, .go 0, .go 0, .go 0, .protect 0, .go 0, .go 0, .protect 1, .go 0, .go 1,
      .unprotect 0, .go 0, .go 0, .go 0, .go 0]
    (fun s => s.pcs 0 = .idle ∧ s.count = 1 ∧ s.pcs 1 = .lock) (by decide)
  obtain ⟨hidle, hcount, hlock⟩ := of_decide_eq_true htest
  exact ⟨tr, s, hrun, hidle, hcount, hlock, (run_protect hrun).2.1⟩

end Prot

end SysArch

end LwipCs
