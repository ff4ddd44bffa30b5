import LwipCs.Interleave.Simulation
import Mathlib.Logic.Function.Basic
import Mathlib.Tactic.Simps.Basic

/-!
# Semaphores

A `sys_sem` is a counter under a pthread mutex, with a condition variable for the threads
that find the counter at zero. The semaphores, and the mailboxes over them, are compiled
where `NO_SYS` is 0.

A thread performs one call of pthread or one block under the mutex in a step. A thread in
`pthread_cond_wait` may be woken by a broadcast, by its timeout, or for no reason.
-/

namespace LwipCs

namespace SysArch

open Interleave

/-- A pthread. -/
abbrev PThread := Nat

/-- The largest `int`. -/
def intMax : Nat := 2147483647

/-- Where a thread stands in `sys_arch_sem_wait` or `sys_sem_signal`. -/
inductive SemPc
  | idle
  | waitLock (timeout : Nat)
  /-- before the condition of the loop -/
  | waitTest (timeout : Nat)
  /-- in `cond_wait`, without the mutex -/
  | asleep (timeout : Nat)
  /-- in `cond_wait`, before it has the mutex again -/
  | awake (timeout : Nat) (expired : Bool)
  /-- before `sem->c--` -/
  | waitTake
  | waitUnlock (expired : Bool)
  | signalLock
  /-- before `sem->c++` and the test that bounds it -/
  | signalInc
  | signalBroadcast
  | signalUnlock
  deriving DecidableEq, Repr

/-- `struct sys_sem`, with the holder of its mutex and the threads that use it. -/
structure Sem where
  c : Nat
  mutex : Option PThread
  pcs : PThread → SemPc

/-- Calls, steps of threads, and wake-ups that no signal caused. -/
inductive SemAct
  | wait (t : PThread) (timeout : Nat)
  | signal (t : PThread)
  | go (t : PThread)
  | wake (t : PThread)
  | expire (t : PThread)
  deriving DecidableEq, Repr

/-- What `pthread_cond_broadcast` does to a thread. -/
def SemPc.roused : SemPc → SemPc
  | .asleep timeout => .awake timeout false
  | pc => pc

namespace Sem

@[simps -fullyApplied]
def goto (s : Sem) (t : PThread) (pc : SemPc) : Sem :=
  { s with pcs := Function.update s.pcs t pc }

/-- `pthread_mutex_lock`. -/
def lock (s : Sem) (t : PThread) (pc : SemPc) : Option Sem :=
  if s.mutex = none then some ({ s with mutex := some t }.goto t pc) else none

/-- `pthread_mutex_unlock`. -/
def unlock (s : Sem) (t : PThread) (pc : SemPc) : Sem := { s with mutex := none }.goto t pc

/-- The next step of a thread that is not asleep. -/
def go (s : Sem) (t : PThread) : Option Sem :=
  match s.pcs t with
  | .idle | .asleep _ => none
  | .waitLock timeout => s.lock t (.waitTest timeout)
  | .waitTest timeout =>
      if s.c = 0 then some (s.unlock t (.asleep timeout)) else some (s.goto t .waitTake)
  | .awake timeout expired => s.lock t (if expired then .waitUnlock true else .waitTest timeout)
  | .waitTake => some ({ s with c := s.c - 1 }.goto t (.waitUnlock false))
  | .waitUnlock _ => some (s.unlock t .idle)
  | .signalLock => s.lock t .signalInc
  | .signalInc =>
      some ({ s with c := if 1 < s.c + 1 then 1 else s.c + 1 }.goto t .signalBroadcast)
  | .signalBroadcast =>
      some ({ s with pcs := fun u => (s.pcs u).roused }.goto t .signalUnlock)
  | .signalUnlock => some (s.unlock t .idle)

def step (s : Sem) : SemAct → Option Sem
  | .wait t timeout => if s.pcs t = .idle then some (s.goto t (.waitLock timeout)) else none
  | .signal t => if s.pcs t = .idle then some (s.goto t .signalLock) else none
  | .go t => s.go t
  | .wake t =>
      match s.pcs t with
      | .asleep timeout => some (s.goto t (.awake timeout false))
      | _ => none
  | .expire t =>
      match s.pcs t with
      | .asleep timeout => if 0 < timeout then some (s.goto t (.awake timeout true)) else none
      | _ => none

end Sem

/-- A semaphore made by `sys_sem_new(count)`. -/
def sem (count : Nat) : Machine Sem SemAct := ⟨⟨count, none, fun _ => .idle⟩, Sem.step⟩

/-! ### The semaphore as its users see it -/

/-- What happens to the counter, and who did it. -/
inductive SemOp
  | take (t : PThread)
  | signal (t : PThread)
  | expired (t : PThread)
  deriving DecidableEq, Repr

/-- A wait takes a unit that is there; a signal leaves one, however many there were. -/
def semStep (c : Nat) : SemOp → Option Nat
  | .take _ => if 0 < c then some (c - 1) else none
  | .signal _ => some 1
  | .expired _ => some c

def semSpec (count : Nat) : Machine Nat SemOp := ⟨count, semStep⟩

/-- The step of a call that counts. -/
def Sem.shows (s : Sem) : SemAct → Option SemOp
  | .go t =>
      match s.pcs t with
      | .waitTake => some (.take t)
      | .signalInc => some (.signal t)
      | .waitUnlock true => some (.expired t)
      | _ => none
  | _ => none

/-- No thread can go on by itself. -/
def Sem.Stuck (s : Sem) : Prop := ∀ t, s.go t = none

/-! ### Invariant -/

/-- Places between the lock and the unlock. -/
def SemPc.inside : SemPc → Bool
  | .waitTest _ | .waitTake | .waitUnlock _ | .signalInc | .signalBroadcast | .signalUnlock => true
  | _ => false

/-- The mutex is held by the thread inside. A thread sleeps through a unit only until the
broadcast that goes with it. -/
structure SemSound (c : Nat) (mutex : Option PThread) (pcs : PThread → SemPc) : Prop where
  owner : ∀ t, (pcs t).inside = true ↔ mutex = some t
  taking : ∀ t, pcs t = .waitTake → 0 < c
  roused : ∀ t timeout, pcs t = .asleep timeout → 0 < c → ∃ u, pcs u = .signalBroadcast

/-- `SemSound` of a semaphore. -/
abbrev Sem.Sound (s : Sem) : Prop := SemSound s.c s.mutex s.pcs

variable {c c' : Nat} {mutex : Option PThread} {pcs : PThread → SemPc} {t : PThread} {pc : SemPc}
variable {s s' : Sem} {count : Nat}

namespace SemSound

theorem owner_update (h : SemSound c mutex pcs) {mutex' : Option PThread}
    (ht : pc.inside = true ↔ mutex' = some t)
    (hother : ∀ u, u ≠ t → (mutex' = some u ↔ mutex = some u)) (u : PThread) :
    (Function.update pcs t pc u).inside = true ↔ mutex' = some u := by
  by_cases hu : u = t
  · subst hu
    rwa [Function.update_self]
  · rw [Function.update_of_ne hu, h.owner u, hother u hu]

/-- A thread moves, and the mutex with it. The counter changes only inside. -/
theorem move (h : SemSound c mutex pcs) {mutex' : Option PThread}
    (ht : pc.inside = true ↔ mutex' = some t)
    (hother : ∀ u, u ≠ t → (mutex' = some u ↔ mutex = some u))
    (hinside : c' = c ∨ mutex = some t) (htake : pc = .waitTake → 0 < c')
    (hpos : 0 < c' → 0 < c ∧ pcs t ≠ .signalBroadcast ∧ (∀ timeout, pc ≠ .asleep timeout) ∨
      pc = .signalBroadcast) :
    SemSound c' mutex' (Function.update pcs t pc) := by
  refine ⟨h.owner_update ht hother, ?_, ?_⟩
  · intro u hu
    by_cases hut : u = t
    · subst hut
      rw [Function.update_self] at hu
      exact htake hu
    · rw [Function.update_of_ne hut] at hu
      rcases hinside with rfl | hmutex
      · exact h.taking u hu
      · have hheld := (h.owner u).mp (by rw [hu]; rfl)
        rw [hmutex] at hheld
        exact absurd (Option.some.inj hheld).symm hut
  · intro u timeout hu hc
    rcases hpos hc with ⟨hold, hnot, hawake⟩ | rfl
    · have hut : u ≠ t := by
        rintro rfl
        rw [Function.update_self] at hu
        exact hawake timeout hu
      rw [Function.update_of_ne hut] at hu
      obtain ⟨v, hv⟩ := h.roused u timeout hu hold
      have hvt : v ≠ t := by
        rintro rfl
        exact hnot hv
      exact ⟨v, by rwa [Function.update_of_ne hvt]⟩
    · exact ⟨t, Function.update_self ..⟩

/-- A thread moves outside the mutex. -/
theorem outside (h : SemSound c mutex pcs) (hfrom : (pcs t).inside = false)
    (hto : pc.inside = false) (hawake : ∀ timeout, pc ≠ .asleep timeout) :
    SemSound c mutex (Function.update pcs t pc) := by
  have hnot : mutex ≠ some t := by
    intro hmutex
    rw [(h.owner t).mpr hmutex] at hfrom
    cases hfrom
  refine h.move (iff_of_false (by simp [hto]) hnot) (fun _ _ => Iff.rfl) (Or.inl rfl) ?_ ?_
  · rintro rfl
    cases hto
  · intro hc
    refine Or.inl ⟨hc, ?_, hawake⟩
    intro hat
    rw [hat] at hfrom
    cases hfrom

/-- A thread takes the free mutex. -/
theorem enter (h : SemSound c none pcs) (hto : pc.inside = true) (htake : pc ≠ .waitTake) :
    SemSound c (some t) (Function.update pcs t pc) := by
  have hnone : ∀ u, (pcs u).inside = false := by
    intro u
    by_contra hin
    cases (h.owner u).mp (by simpa using hin)
  refine h.move (iff_of_true hto rfl) ?_ (Or.inl rfl) (fun hpc => absurd hpc htake) ?_
  · intro u hu
    exact iff_of_false (fun hut => hu (Option.some.inj hut).symm) nofun
  · intro hc
    refine Or.inl ⟨hc, ?_, ?_⟩
    · intro hat
      have := hnone t
      rw [hat] at this
      cases this
    · rintro timeout rfl
      cases hto

/-- The thread inside goes on. -/
theorem proceed (h : SemSound c mutex pcs) (hfrom : (pcs t).inside = true)
    (hto : pc.inside = true) (htake : pc = .waitTake → 0 < c')
    (hpos : 0 < c' → 0 < c ∧ pcs t ≠ .signalBroadcast ∨ pc = .signalBroadcast) :
    SemSound c' mutex (Function.update pcs t pc) := by
  have hmutex := (h.owner t).mp hfrom
  refine h.move (iff_of_true hto hmutex) (fun _ _ => Iff.rfl) (Or.inr hmutex) htake ?_
  intro hc
  refine (hpos hc).imp_left ?_
  rintro ⟨hold, hnot⟩
  refine ⟨hold, hnot, ?_⟩
  rintro timeout rfl
  cases hto

/-- The thread inside gives the mutex back; it falls asleep only without a unit. -/
theorem leave (h : SemSound c mutex pcs) (hfrom : (pcs t).inside = true)
    (hnot : pcs t ≠ .signalBroadcast) (hto : pc.inside = false)
    (hasleep : ∀ timeout, pc = .asleep timeout → c = 0) :
    SemSound c none (Function.update pcs t pc) := by
  have hmutex := (h.owner t).mp hfrom
  refine h.move (iff_of_false (by simp [hto]) nofun) ?_ (Or.inl rfl) ?_ ?_
  · intro u hu
    refine iff_of_false nofun ?_
    rw [hmutex]
    exact fun hut => hu (Option.some.inj hut).symm
  · rintro rfl
    cases hto
  · intro hc
    refine Or.inl ⟨hc, hnot, ?_⟩
    intro timeout hpc
    rw [hasleep timeout hpc] at hc
    exact absurd hc (Nat.lt_irrefl 0)

theorem roused_inside (pc : SemPc) : pc.roused.inside = pc.inside := by
  cases pc <;> rfl

/-- The broadcast leaves nobody asleep. -/
theorem broadcast (h : SemSound c mutex pcs) (hat : pcs t = .signalBroadcast) :
    SemSound c mutex (Function.update (fun u => (pcs u).roused) t .signalUnlock) := by
  have hmutex := (h.owner t).mp (by rw [hat]; rfl)
  refine ⟨?_, ?_, ?_⟩
  · intro u
    by_cases hu : u = t
    · subst hu
      rw [Function.update_self]
      exact iff_of_true rfl hmutex
    · rw [Function.update_of_ne hu, roused_inside, h.owner u]
  · intro u hu
    by_cases hut : u = t
    · subst hut
      rw [Function.update_self] at hu
      cases hu
    · rw [Function.update_of_ne hut] at hu
      cases hpc : pcs u with
      | waitTake => exact h.taking u hpc
      | _ =>
          rw [hpc] at hu
          cases hu
  · intro u timeout hu
    by_cases hut : u = t
    · subst hut
      rw [Function.update_self] at hu
      cases hu
    · rw [Function.update_of_ne hut] at hu
      cases hpc : pcs u <;> rw [hpc] at hu <;> cases hu

end SemSound

namespace Sem

theorem lock_sound (h : s.Sound) (hlock : s.lock t pc = some s') (hto : pc.inside = true)
    (htake : pc ≠ .waitTake) : s'.Sound := by
  unfold lock at hlock
  split at hlock
  · rename_i hfree
    cases hlock
    have hnone : SemSound s.c none s.pcs := hfree ▸ h
    exact hnone.enter hto htake
  · cases hlock

theorem go_sound (h : s.Sound) (hgo : s.go t = some s') : s'.Sound := by
  unfold go at hgo
  split at hgo
  · cases hgo
  · cases hgo
  · exact lock_sound h hgo rfl nofun
  · rename_i timeout hpc
    have hin : (s.pcs t).inside = true := by rw [hpc]; rfl
    split at hgo
    · rename_i hc
      cases hgo
      exact h.leave hin (by rw [hpc]; nofun) rfl fun _ _ => hc
    · rename_i hc
      cases hgo
      have hpos : 0 < s.c := Nat.pos_of_ne_zero hc
      exact h.proceed hin rfl (fun _ => hpos) fun _ => Or.inl ⟨hpos, by rw [hpc]; nofun⟩
  · rename_i timeout expired _
    cases expired with
    | true => exact lock_sound h hgo rfl nofun
    | false => exact lock_sound h hgo rfl nofun
  · rename_i hpc
    cases hgo
    refine h.proceed (by rw [hpc]; rfl) rfl nofun fun hc => Or.inl ⟨?_, by rw [hpc]; nofun⟩
    exact Nat.lt_of_lt_of_le hc (Nat.sub_le s.c 1)
  · rename_i hpc
    cases hgo
    exact h.leave (by rw [hpc]; rfl) (by rw [hpc]; nofun) rfl nofun
  · exact lock_sound h hgo rfl nofun
  · rename_i hpc
    cases hgo
    exact h.proceed (by rw [hpc]; rfl) rfl nofun fun _ => Or.inr rfl
  · rename_i hpc
    cases hgo
    exact h.broadcast hpc
  · rename_i hpc
    cases hgo
    exact h.leave (by rw [hpc]; rfl) (by rw [hpc]; nofun) rfl nofun

theorem step_sound {a : SemAct} (h : s.Sound) (hstep : s.step a = some s') : s'.Sound := by
  cases a with
  | wait t timeout =>
      simp only [step] at hstep
      split at hstep
      · rename_i hidle
        cases hstep
        exact h.outside (by rw [hidle]; rfl) rfl nofun
      · cases hstep
  | signal t =>
      simp only [step] at hstep
      split at hstep
      · rename_i hidle
        cases hstep
        exact h.outside (by rw [hidle]; rfl) rfl nofun
      · cases hstep
  | go t => exact go_sound h hstep
  | wake t =>
      simp only [step] at hstep
      split at hstep
      · rename_i hpc
        cases hstep
        exact h.outside (by rw [hpc]; rfl) rfl nofun
      · cases hstep
  | expire t =>
      simp only [step] at hstep
      split at hstep
      · rename_i hpc
        split at hstep
        · cases hstep
          exact h.outside (by rw [hpc]; rfl) rfl nofun
        · cases hstep
      · cases hstep

theorem reachable_sound (h : (sem count).Reachable s) : s.Sound := by
  refine h.invariant ⟨?_, nofun, nofun⟩ fun s a s' hs hstep => step_sound hs hstep
  exact fun _ => iff_of_false Bool.false_ne_true nofun

end Sem

/-! ### Results -/

namespace Sem

theorem lock_eq (h : s.lock t pc = some s') :
    s' = { s with mutex := some t }.goto t pc ∧ s.mutex = none := by
  unfold lock at h
  split at h
  · rename_i hfree
    cases h
    exact ⟨rfl, hfree⟩
  · cases h

theorem lock_c (h : s.lock t pc = some s') : s'.c = s.c := by
  obtain ⟨rfl, _⟩ := lock_eq h
  rfl

/-- Only the marked steps of a thread touch the counter, each as its operation says. -/
theorem go_matches (h : s.Sound) (hgo : s.go t = some s') :
    Machine.Matches (semSpec count) (fun s c => s.c = c) s' s.c (s.shows (.go t)) := by
  unfold go at hgo
  split at hgo <;> rename_i hpc <;> simp only [shows, hpc, Machine.Matches]
  · cases hgo
  · cases hgo
  · exact lock_c hgo
  · split at hgo <;> cases hgo <;> rfl
  · exact lock_c hgo
  · cases hgo
    exact ⟨s.c - 1, if_pos (h.taking t hpc), rfl⟩
  · rename_i expired
    cases hgo
    cases expired with
    | true => exact ⟨s.c, rfl, rfl⟩
    | false => rfl
  · exact lock_c hgo
  · cases hgo
    refine ⟨1, rfl, ?_⟩
    show (if 1 < s.c + 1 then 1 else s.c + 1) = 1
    split <;> omega
  · cases hgo
    rfl
  · cases hgo
    rfl

/-- The semaphore under its mutex is the semaphore its users see. -/
def simulates (count : Nat) : Machine.Simulation (sem count) (semSpec count) Sem.shows where
  rel s c := s.c = c
  start := rfl
  step := by
    rintro s a s' _ hreach rfl hstep
    cases a with
    | go t => exact go_matches (reachable_sound hreach) hstep
    | wait t timeout =>
        change (if s.pcs t = .idle then some (s.goto t (.waitLock timeout)) else none) = _ at hstep
        split at hstep
        · cases hstep
          exact rfl
        · cases hstep
    | signal t =>
        change (if s.pcs t = .idle then some (s.goto t .signalLock) else none) = _ at hstep
        split at hstep
        · cases hstep
          exact rfl
        · cases hstep
    | wake t =>
        simp only [sem, step] at hstep
        split at hstep
        · cases hstep
          exact rfl
        · cases hstep
    | expire t =>
        simp only [sem, step] at hstep
        split at hstep
        · split at hstep
          · cases hstep
            exact rfl
          · cases hstep
        · cases hstep

/-- A thread that cannot go on is between calls, waits for the mutex, or sleeps. -/
theorem go_none (h : s.go t = none) : s.pcs t = .idle ∨ (∃ timeout, s.pcs t = .asleep timeout) ∨
    s.mutex ≠ none ∧ (s.pcs t).inside = false := by
  have blocked : ∀ {pc}, s.lock t pc = none → s.mutex ≠ none := by
    intro pc hlock hfree
    rw [lock, if_pos hfree] at hlock
    cases hlock
  unfold go at h
  split at h <;> rename_i hpc
  · exact Or.inl hpc
  · exact Or.inr (Or.inl ⟨_, hpc⟩)
  · exact Or.inr (Or.inr ⟨blocked h, by rw [hpc]; rfl⟩)
  · split at h <;> cases h
  · exact Or.inr (Or.inr ⟨blocked h, by rw [hpc]; rfl⟩)
  · cases h
  · cases h
  · exact Or.inr (Or.inr ⟨blocked h, by rw [hpc]; rfl⟩)
  · cases h
  · cases h
  · cases h

/-- Where no thread can go on, those in a call sleep, and there is no unit for them. -/
theorem stuck_asleep (h : s.Sound) (hstuck : s.Stuck) (t : PThread) :
    s.pcs t = .idle ∨ ∃ timeout, s.pcs t = .asleep timeout ∧ s.c = 0 := by
  have hfree : s.mutex = none := by
    cases hmutex : s.mutex with
    | none => rfl
    | some u =>
        have hin := (h.owner u).mpr hmutex
        rcases go_none (hstuck u) with hu | ⟨timeout, hu⟩ | ⟨_, hout⟩
        · rw [hu] at hin
          cases hin
        · rw [hu] at hin
          cases hin
        · rw [hin] at hout
          cases hout
  have stands : ∀ u, s.pcs u = .idle ∨ ∃ timeout, s.pcs u = .asleep timeout := by
    intro u
    rcases go_none (hstuck u) with hu | hu | ⟨hheld, _⟩
    · exact Or.inl hu
    · exact Or.inr hu
    · exact absurd hfree hheld
  rcases stands t with ht | ⟨timeout, ht⟩
  · exact Or.inl ht
  · refine Or.inr ⟨timeout, ht, ?_⟩
    by_contra hc
    obtain ⟨u, hu⟩ := h.roused t timeout ht (Nat.pos_of_ne_zero hc)
    rcases stands u with hidle | ⟨_, hasleep⟩
    · rw [hu] at hidle
      cases hidle
    · rw [hu] at hasleep
      cases hasleep

/-- Every run of the semaphore shows as a run of the specification on the same counter, and
nobody is left asleep while there is a unit. -/
theorem run_semaphore {tr : List (Sem × SemAct)} (hrun : (sem count).Run tr s) :
    (∃ tr', (semSpec count).Run tr' s.c ∧ tr'.map Prod.snd = Machine.shown Sem.shows tr) ∧
      (s.Stuck → ∀ t, s.pcs t = .idle ∨ ∃ timeout, s.pcs t = .asleep timeout ∧ s.c = 0) := by
  obtain ⟨tr', c, habs, hrel, hshown⟩ := (simulates count).run hrun
  obtain rfl : s.c = c := hrel
  exact ⟨⟨tr', habs, hshown⟩, stuck_asleep (reachable_sound hrun.reachable)⟩

/-- A thread sleeps, another signals, and the first takes the unit. -/
theorem run_semaphore_pair : ∃ tr s, (sem 0).Run tr s ∧ s.c = 0 ∧ s.pcs 0 = .idle ∧
    ∃ tr', (semSpec 0).Run tr' s.c ∧ tr'.map Prod.snd = Machine.shown Sem.shows tr := by
  obtain ⟨tr, s, hrun, _, htest⟩ := Machine.exists_run_of_exec (sem 0) (fun _ _ => true)
    [.wait 0 0, .go 0, .go 0, .signal 1, .go 1, .go 1, .go 1, .go 1, .go 0, .go 0, .go 0, .go 0]
    (fun s => s.c = 0 ∧ s.pcs 0 = .idle) (by decide)
  obtain ⟨hc, hidle⟩ := of_decide_eq_true htest
  exact ⟨tr, s, hrun, hc, hidle, (run_semaphore hrun).1⟩

end Sem

end SysArch

end LwipCs
