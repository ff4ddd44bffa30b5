import LwipCs.SysArch.Mbox
import Mathlib.Data.Nat.SuccPred

/-!
# Who is left waiting at a mailbox

`not_empty` is signalled only by the message that comes into an empty box, and `not_full`
only by a message that leaves while posters wait; neither holds more than one unit. With one
fetcher the box does not get stuck: the fetcher sleeps only beside an empty box, and a poster
only beside one with mail in it. Posters may sleep beside room, as two messages that leave in a
row may wake one of them, but the next message that leaves wakes another.
-/

namespace LwipCs

namespace SysArch

open Interleave

variable {μ : Type}

namespace MboxPc

/-- Places of the functions that fetch. -/
def fetches : MboxPc μ → Bool
  | .fetchLock _ | .fetchTest _ | .fetchRelease _ | .fetchWait _ | .fetchTake | .fetchSignal
  | .fetchUnlock => true
  | _ => false

/-- A fetcher on its way into its sleep. -/
def dozing : MboxPc μ → Bool
  | .fetchRelease (some _) | .fetchWait _ => true
  | _ => false

/-- A poster on its way into its sleep. -/
def held : MboxPc μ → Bool
  | .postRelease _ | .postWait _ => true
  | _ => false

/-- Threads that will signal `not_full`, or put a message into an empty box. -/
def rousing : MboxPc μ → Bool
  | .fetchSignal | .postRelock _ | .postRetry _ | .postTest .. | .postStore _ => true
  | _ => false

end MboxPc

/-- Only `f` fetches. -/
def MboxAct.FetchedBy (f : PThread) : MboxAct μ → Prop
  | .fetch t _ | .tryfetch t => t = f
  | _ => True

instance (f : PThread) : ∀ a : MboxAct μ, Decidable (a.FetchedBy f)
  | .fetch t _ | .tryfetch t => inferInstanceAs (Decidable (t = f))
  | .post .. | .trypost .. | .go _ | .expire _ => .isTrue trivial

/-- A call of `sys_arch_mbox_fetch` by `f` that waits without a limit, and what `f` does in it. -/
def Mbox.fetching (f : PThread) (_ : Mbox μ) : MboxAct μ → Bool
  | .fetch t timeout => t = f ∧ timeout = 0
  | .go t => t = f
  | _ => false

/-- Mail beside a dozing fetcher, and posters held beside an empty box, come with a unit of
the semaphore or a thread that brings one. -/
structure MboxAwake (f : PThread) (first last notEmpty notFull : Nat)
    (pcs : PThread → MboxPc μ) : Prop where
  fetcher : ∀ t, (pcs t).fetches = true → t = f
  mail : first < last → (pcs f).dozing = true → 0 < notEmpty ∨ ∃ u, pcs u = .postSignal
  space : first = last → ∀ t, (pcs t).held = true →
    0 < notFull ∨ ∃ u, (pcs u).rousing = true

/-- `MboxAwake` of a mailbox. -/
abbrev Mbox.Awake (f : PThread) (s : Mbox μ) : Prop :=
  MboxAwake f s.first s.last s.notEmpty s.notFull s.pcs

/-- What a step between two places respects that moves no counter and no semaphore for
sleepers. -/
structure MboxPc.Passes (f t : PThread) (first last : Nat) (pc pc' : MboxPc μ) : Prop where
  fetches : pc'.fetches = true → t = f
  doze : pc'.dozing = true → first < last → pc.dozing = true
  signals : pc ≠ .postSignal
  holds : pc'.held = true → first = last → pc.held = true
  rouses : pc.rousing = true → first = last → pc'.rousing = true

variable {f t : PThread} {first last notEmpty notFull first' last' : Nat}
variable {pcs : PThread → MboxPc μ} {pc : MboxPc μ} {s s' : Mbox μ}

namespace MboxAwake

theorem fetcher_update (h : MboxAwake f first last notEmpty notFull pcs)
    (hpc : pc.fetches = true → t = f) (u : PThread)
    (hu : (Function.update pcs t pc u).fetches = true) : u = f := by
  by_cases hut : u = t
  · subst hut
    rw [Function.update_self] at hu
    exact hpc hu
  · rw [Function.update_of_ne hut] at hu
    exact h.fetcher u hu

/-- The thread that would signal mail is still there, or has signalled. -/
theorem mail_update (h : MboxAwake f first last notEmpty notFull pcs) {notEmpty' : Nat}
    (hdoze : t = f → pc.dozing = true → (pcs t).dozing = true) (hlt : first < last)
    (hunit : 0 < notEmpty → 0 < notEmpty') (hsignal : pcs t = .postSignal → 0 < notEmpty')
    (hf : (Function.update pcs t pc f).dozing = true) :
    0 < notEmpty' ∨ ∃ u, Function.update pcs t pc u = .postSignal := by
  have hold : (pcs f).dozing = true := by
    by_cases hft : f = t
    · subst hft
      rw [Function.update_self] at hf
      exact hdoze rfl hf
    · rwa [Function.update_of_ne hft] at hf
  obtain hpos | ⟨u, hu⟩ := h.mail hlt hold
  · exact Or.inl (hunit hpos)
  · by_cases hut : u = t
    · exact Or.inl (hsignal (hut ▸ hu))
    · exact Or.inr ⟨u, by rwa [Function.update_of_ne hut]⟩

/-- The thread that would make space known is still there, or has signalled. -/
theorem space_update (h : MboxAwake f first last notEmpty notFull pcs) {notFull' : Nat}
    (hheld : pc.held = true → (pcs t).held = true) (heq : first = last)
    (hunit : 0 < notFull → 0 < notFull' ∨ pc.rousing = true)
    (hrouse : (pcs t).rousing = true → 0 < notFull' ∨ pc.rousing = true) (u : PThread)
    (hu : (Function.update pcs t pc u).held = true) :
    0 < notFull' ∨ ∃ v, (Function.update pcs t pc v).rousing = true := by
  have here : 0 < notFull' ∨ pc.rousing = true →
      0 < notFull' ∨ ∃ v, (Function.update pcs t pc v).rousing = true := by
    apply Or.imp_right
    intro hpc
    exact ⟨t, by rwa [Function.update_self]⟩
  have hold : (pcs u).held = true := by
    by_cases hut : u = t
    · subst hut
      rw [Function.update_self] at hu
      exact hheld hu
    · rwa [Function.update_of_ne hut] at hu
  obtain hpos | ⟨v, hv⟩ := h.space heq u hold
  · exact here (hunit hpos)
  · by_cases hvt : v = t
    · exact here (hrouse (hvt ▸ hv))
    · exact Or.inr ⟨v, by rwa [Function.update_of_ne hvt]⟩

/-- A thread moves, and no counter or semaphore for sleepers with it. -/
theorem pass (h : MboxAwake f first last notEmpty notFull pcs)
    (hpass : MboxPc.Passes f t first last (pcs t) pc) :
    MboxAwake f first last notEmpty notFull (Function.update pcs t pc) := by
  refine ⟨h.fetcher_update hpass.fetches, ?_, ?_⟩
  · intro hlt
    exact h.mail_update (fun _ hdoze => hpass.doze hdoze hlt) hlt id
      fun hat => absurd hat hpass.signals
  · intro heq
    exact h.space_update (fun hheld => hpass.holds hheld heq) heq Or.inl
      fun hrouse => Or.inr (hpass.rouses hrouse heq)

/-- Mail is signalled. -/
theorem signal_mail (h : MboxAwake f first last notEmpty notFull pcs)
    (hat : pcs t = .postSignal) :
    MboxAwake f first last 1 notFull (Function.update pcs t .postUnlock) := by
  refine ⟨h.fetcher_update nofun, fun _ _ => Or.inl Nat.one_pos, ?_⟩
  intro heq
  refine h.space_update nofun heq Or.inl ?_
  rw [hat]
  nofun

/-- Space is signalled. -/
theorem signal_space (h : MboxAwake f first last notEmpty notFull pcs)
    (hat : pcs t = .fetchSignal) :
    MboxAwake f first last notEmpty 1 (Function.update pcs t .fetchUnlock) := by
  have htf : t = f := h.fetcher t (by rw [hat]; rfl)
  refine ⟨h.fetcher_update fun _ => htf, ?_, fun _ _ _ => Or.inl Nat.one_pos⟩
  intro hlt
  refine h.mail_update (fun _ => nofun) hlt id ?_
  rw [hat]
  nofun

/-- The fetcher wakes up. -/
theorem wake_fetcher (h : MboxAwake f first last notEmpty notFull pcs) {timeout : Nat}
    (hat : pcs t = .fetchWait timeout) :
    MboxAwake f first last (notEmpty - 1) notFull
      (Function.update pcs t (.fetchLock (some timeout))) := by
  have htf : t = f := h.fetcher t (by rw [hat]; rfl)
  refine ⟨h.fetcher_update fun _ => htf, ?_, ?_⟩
  · intro _ hdoze
    rw [← htf, Function.update_self] at hdoze
    cases hdoze
  · intro heq
    refine h.space_update nofun heq Or.inl ?_
    rw [hat]
    nofun

/-- A poster wakes up, and will find space in an empty box. -/
theorem wake_poster (h : MboxAwake f first last notEmpty notFull pcs) {m : μ}
    (hat : pcs t = .postWait m) :
    MboxAwake f first last notEmpty (notFull - 1) (Function.update pcs t (.postRelock m)) := by
  refine ⟨h.fetcher_update nofun, ?_, ?_⟩
  · intro hlt
    refine h.mail_update (fun _ => nofun) hlt id ?_
    rw [hat]
    nofun
  · intro heq
    exact h.space_update nofun heq (fun _ => Or.inr rfl) fun _ => Or.inr rfl

/-- A message comes in; into an empty box with the signal still due. -/
theorem store (h : MboxAwake f first last notEmpty notFull pcs) {m : μ} (horder : first ≤ last)
    (hat : pcs t = .postStore m) :
    MboxAwake f first (last + 1) notEmpty notFull
      (Function.update pcs t (if last = first then .postSignal else .postUnlock)) := by
  refine ⟨h.fetcher_update ?_, ?_, ?_⟩
  · split <;> nofun
  · intro _ hdoze
    by_cases heq : last = first
    · exact Or.inr ⟨t, by rw [Function.update_self, if_pos heq]⟩
    · have hlt : first < last := Nat.lt_of_le_of_ne horder (Ne.symm heq)
      rw [if_neg heq] at hdoze ⊢
      refine h.mail_update (fun _ => nofun) hlt id ?_ hdoze
      rw [hat]
      nofun
  · intro heq
    omega

/-- A message goes out; beside posters that wait with the signal still due. -/
theorem take (h : MboxAwake f first last notEmpty notFull pcs) {waitSend : Nat}
    (htally : Total (MboxPc.waiting ∘ pcs) waitSend) (hat : pcs t = .fetchTake) :
    MboxAwake f (first + 1) last notEmpty notFull
      (Function.update pcs t (if waitSend ≠ 0 then .fetchSignal else .fetchUnlock)) := by
  have htf : t = f := h.fetcher t (by rw [hat]; rfl)
  refine ⟨h.fetcher_update fun _ => htf, ?_, ?_⟩
  · intro _ hdoze
    rw [← htf, Function.update_self] at hdoze
    split at hdoze <;> cases hdoze
  · intro _ u hu
    have hut : u ≠ t := by
      rintro rfl
      rw [Function.update_self] at hu
      split at hu <;> cases hu
    rw [Function.update_of_ne hut] at hu
    have hshare : (pcs u).waiting = 1 := by
      cases hpc : pcs u <;> rw [hpc] at hu <;> first | rfl | cases hu
    have hle := htally.le u
    rw [Function.comp_apply, hshare] at hle
    refine Or.inr ⟨t, ?_⟩
    rw [Function.update_self, if_pos (by omega)]
    rfl

end MboxAwake

namespace Mbox

theorem testFull_awake {m : μ} {wait : Bool} (h : s.Awake f) (hat : s.pcs t = .postTest m wait) :
    (s.testFull t m wait).Awake f := by
  obtain ⟨heq, _⟩ | ⟨_, hfull, hto⟩ | ⟨_, _, heq⟩ := testFull_cases s t m wait
  · rw [heq]
    exact h
  · have hne : s.first = s.last → False := by
      unfold mboxSize at hfull
      omega
    obtain heq | heq := hto <;>
      · rw [heq]
        apply h.pass
        rw [hat]
        exact ⟨nofun, nofun, nofun, fun _ hempty => (hne hempty).elim,
          fun _ hempty => (hne hempty).elim⟩
  · rw [heq]
    apply h.pass
    rw [hat]
    exact ⟨nofun, nofun, nofun, nofun, fun _ _ => rfl⟩

theorem go_awake (h : s.Awake f) (hs : s.Sound) (hgo : s.go t = some s') : s'.Awake f := by
  have hfetcher := h.fetcher t
  unfold go at hgo
  split at hgo <;> rename_i hpc <;> rw [hpc] at hfetcher
  · cases hgo
  · obtain ⟨_, rfl⟩ := onMutex_take hgo
    apply h.pass
    rw [hpc]
    exact ⟨nofun, nofun, nofun, nofun, nofun⟩
  · cases hgo
    exact testFull_awake h hpc
  · cases hgo
    apply h.pass
    rw [hpc]
    exact ⟨nofun, nofun, nofun, nofun, nofun⟩
  · cases hgo
    apply h.pass
    rw [hpc]
    exact ⟨nofun, nofun, nofun, fun _ _ => rfl, nofun⟩
  · obtain ⟨_, rfl⟩ := onNotFull_take hgo
    exact h.wake_poster hpc
  · obtain ⟨_, rfl⟩ := onMutex_take hgo
    apply h.pass
    rw [hpc]
    exact ⟨nofun, nofun, nofun, nofun, fun _ _ => rfl⟩
  · cases hgo
    apply h.pass
    rw [hpc]
    exact ⟨nofun, nofun, nofun, nofun, fun _ _ => rfl⟩
  · cases hgo
    exact h.store hs.1.order hpc
  · cases hgo
    exact h.signal_mail hpc
  · cases hgo
    apply h.pass
    rw [hpc]
    exact ⟨nofun, nofun, nofun, nofun, nofun⟩
  · obtain ⟨_, rfl⟩ := onMutex_take hgo
    apply h.pass
    rw [hpc]
    exact ⟨fun _ => hfetcher rfl, nofun, nofun, nofun, nofun⟩
  · cases hgo
    apply h.pass
    rw [hpc]
    refine ⟨fun _ => hfetcher rfl, fun hdoze hlt => ?_, nofun, fun hheld => ?_, nofun⟩
    · split at hdoze
      · omega
      · cases hdoze
    · split at hheld <;> cases hheld
  · rename_i timeout
    cases hgo
    apply h.pass
    rw [hpc]
    cases timeout with
    | none => exact ⟨nofun, nofun, nofun, nofun, nofun⟩
    | some timeout => exact ⟨fun _ => hfetcher rfl, fun _ _ => rfl, nofun, nofun, nofun⟩
  · obtain ⟨_, rfl⟩ := onNotEmpty_take hgo
    exact h.wake_fetcher hpc
  · cases hgo
    exact h.take hs.1.tally hpc
  · cases hgo
    exact h.signal_space hpc
  · cases hgo
    apply h.pass
    rw [hpc]
    exact ⟨nofun, nofun, nofun, nofun, nofun⟩

/-- A call only brings a thread in. -/
theorem enter_awake (h : s.Awake f) (henter : s.enter t pc = some s')
    (hfetch : pc.fetches = true → t = f) (hdoze : pc.dozing = false) (hheld : pc.held = false) :
    s'.Awake f := by
  obtain ⟨hidle, rfl⟩ := enter_eq henter
  apply h.pass
  rw [hidle]
  refine ⟨hfetch, ?_, nofun, ?_, nofun⟩
  · rw [hdoze]
    nofun
  · rw [hheld]
    nofun

theorem step_awake {a : MboxAct μ} (h : s.Awake f) (hs : s.Sound) (hby : a.FetchedBy f)
    (hstep : s.step a = some s') : s'.Awake f := by
  have hok := step_ok hstep
  cases a with
  | go t => exact go_awake h hs (by rwa [step_go hok] at hstep)
  | expire t =>
      obtain ⟨timeout, _, hpc, rfl⟩ := step_expire hstep
      apply h.pass
      rw [hpc]
      exact ⟨nofun, nofun, nofun, nofun, nofun⟩
  | post t m =>
      have henter : s.enter t (.postLock m true) = some s' := by simpa [step, hok] using hstep
      exact enter_awake h henter nofun rfl rfl
  | trypost t m =>
      have henter : s.enter t (.postLock m false) = some s' := by simpa [step, hok] using hstep
      exact enter_awake h henter nofun rfl rfl
  | fetch t timeout =>
      exact enter_awake h (by simpa [step, hok] using hstep) (fun _ => hby) rfl rfl
  | tryfetch t => exact enter_awake h (by simpa [step, hok] using hstep) (fun _ => hby) rfl rfl

/-- Every run in which only `f` fetches. -/
theorem run_awake {tr : List (Mbox μ × MboxAct μ)} (hrun : (mbox μ).Run tr s)
    (hby : Machine.Meets (fun _ a => a.FetchedBy f) tr) : s.Awake f :=
  hrun.invariant_under hby reachable_sound ⟨nofun, fun _ => nofun, fun _ _ => nofun⟩
    fun _ _ _ hs _ h hby hstep => step_awake h hs hby hstep

/-! ### Results -/

/-- A thread that cannot go on is between calls, sleeps, or stands before the mutex. -/
theorem go_none (h : s.go t = none) :
    s.pcs t = .idle ∨ (∃ m, s.pcs t = .postWait m) ∧ s.notFull = 0 ∨
      (∃ timeout, s.pcs t = .fetchWait timeout) ∧ s.notEmpty = 0 ∨
      s.mutex = 0 ∧ (s.pcs t).inside = false := by
  unfold go at h
  split at h <;> rename_i hpc
  · exact Or.inl hpc
  · refine Or.inr (Or.inr (Or.inr ⟨?_, by rw [hpc]; rfl⟩))
    simpa [onMutex, semStep] using h
  · cases h
  · cases h
  · cases h
  · refine Or.inr (Or.inl ⟨⟨_, hpc⟩, ?_⟩)
    simpa [onNotFull, semStep] using h
  · refine Or.inr (Or.inr (Or.inr ⟨?_, by rw [hpc]; rfl⟩))
    simpa [onMutex, semStep] using h
  · cases h
  · cases h
  · cases h
  · cases h
  · refine Or.inr (Or.inr (Or.inr ⟨?_, by rw [hpc]; rfl⟩))
    simpa [onMutex, semStep] using h
  · cases h
  · cases h
  · refine Or.inr (Or.inr (Or.inl ⟨⟨_, hpc⟩, ?_⟩))
    simpa [onNotEmpty, semStep] using h
  · cases h
  · cases h
  · cases h

/-- Where no thread can go on the mutex is free. -/
theorem stuck_free (h : s.Sound) (hok : s.undefined = false) (hstuck : s.Stuck) : 0 < s.mutex := by
  apply h.1.exclusive.free_iff.mpr
  intro u
  show (s.pcs u).inside = false
  have hnone : s.go u = none := (step_go hok).symm.trans (hstuck u)
  obtain hpc | ⟨⟨m, hpc⟩, _⟩ | ⟨⟨timeout, hpc⟩, _⟩ | ⟨_, hout⟩ := go_none hnone
  · rw [hpc]
    rfl
  · rw [hpc]
    rfl
  · rw [hpc]
    rfl
  · exact hout

/-- Where no thread can go on, every thread is idle or asleep. -/
theorem stuck_asleep (h : s.Sound) (hok : s.undefined = false) (hstuck : s.Stuck)
    (t : PThread) :
    s.pcs t = .idle ∨ (∃ m, s.pcs t = .postWait m) ∧ s.notFull = 0 ∨
      (∃ timeout, s.pcs t = .fetchWait timeout) ∧ s.notEmpty = 0 := by
  have hnone : ∀ u, s.go u = none := fun u => (step_go hok).symm.trans (hstuck u)
  have hfree := stuck_free h hok hstuck
  obtain hpc | hpc | hpc | ⟨htaken, _⟩ := go_none (hnone t)
  · exact Or.inl hpc
  · exact Or.inr (Or.inl hpc)
  · exact Or.inr (Or.inr hpc)
  · omega

/-! ### Whole calls -/

variable {ok : Mbox μ → MboxAct μ → Bool}

/-- A post at a full box falls asleep. -/
theorem post_sleeps {m : μ} (hcall : ∀ s, ok s (.post t m) = true)
    (hgoes : ∀ s, ok s (.go t) = true) (hok : s.undefined = false) (hidle : s.pcs t = .idle)
    (hfree : s.mutex = 1) (hfull : s.first + 127 ≤ s.last) (hrange : s.last < intMax)
    (hfirst : s.first + 128 ≤ intMax) :
    (mbox μ).exec ok s [.post t m, .go t, .go t, .go t] =
      some { s with
        waitSend := s.waitSend + 1
        pcs := Function.update s.pcs t (.postWait m) } := by
  simp [Machine.exec, mbox, step, enter, go, onMutex, semStep, testFull, goto, mboxSize, hcall,
    hgoes, hok, hidle, hfree, hfull, Nat.not_le.mpr hrange, Nat.not_lt.mpr hfirst]

/-- A poster that wakes at a box with mail and room posts its message. -/
theorem post_wakes {m : μ} (hgoes : ∀ s, ok s (.go t) = true) (hok : s.undefined = false)
    (hpc : s.pcs t = .postWait m) (hunit : s.notFull = 1) (hfree : s.mutex = 1)
    (hroom : ¬s.first + 127 ≤ s.last) (hmail : s.last ≠ s.first) (hrange : s.last < intMax)
    (hfirst : s.first + 128 ≤ intMax) :
    (mbox μ).exec ok s [.go t, .go t, .go t, .go t, .go t, .go t] =
      some { s with
        notFull := 0
        waitSend := s.waitSend - 1
        msgs := Function.update s.msgs (s.last % mboxSize) (some m)
        last := s.last + 1
        pcs := Function.update s.pcs t .idle } := by
  simp [Machine.exec, mbox, step, go, onMutex, onNotFull, semStep, testFull, store, goto, mboxSize,
    hgoes, hok, hpc, hunit, hfree, hroom, hmail, Nat.not_le.mpr hrange, Nat.not_lt.mpr hfirst]

/-- A fetch of a message beside posters that wait signals `not_full`. -/
theorem fetch_signals (hcall : ∀ s, ok s (.fetch f 0) = true)
    (hgoes : ∀ s, ok s (.go f) = true) (hok : s.undefined = false) (hidle : s.pcs f = .idle)
    (hfree : 0 < s.mutex) (hmail : s.first < s.last) (hwait : s.waitSend ≠ 0) :
    (mbox μ).exec ok s [.fetch f 0, .go f, .go f, .go f, .go f, .go f] =
      some { s with first := s.first + 1, notFull := 1, mutex := 1 } := by
  have hne : s.first ≠ s.last := Nat.ne_of_lt hmail
  have hpcs : Function.update s.pcs f .idle = s.pcs := by
    rw [← hidle, Function.update_eq_self]
  simp [Machine.exec, mbox, step, enter, go, onMutex, onNotFull, semStep, take, goto, hcall, hgoes,
    hok, hidle, hfree, hne, hwait, hpcs]

/-! ### Stuck boxes -/

/-- With one fetcher, where no thread can go on and nothing has overflowed, every thread is
between calls, or posts and waits at a box with mail in it, or is the fetcher and waits at
an empty box. Posters that wait may do so beside room, but the next fetch has a message to take
and leaves a unit for one of them. -/
theorem run_awake_stuck {tr : List (Mbox μ × MboxAct μ)} (hrun : (mbox μ).Run tr s)
    (hby : Machine.Meets (fun _ a => a.FetchedBy f) tr) (hok : s.undefined = false)
    (hstuck : s.Stuck) :
    (∀ t, s.pcs t = .idle ∨ (∃ m, s.pcs t = .postWait m) ∧ s.first < s.last ∨
      t = f ∧ (∃ timeout, s.pcs t = .fetchWait timeout) ∧ s.first = s.last) ∧
    ∀ t m, s.pcs t = .postWait m → s.pcs f = .idle →
      ∃ more u, (mbox μ).Run (tr ++ more) u ∧
        Machine.Meets (fun s a => s.fetching f a = true) more ∧
          u.first = s.first + 1 ∧ u.pcs = s.pcs ∧ 0 < u.notFull := by
  have hsound := reachable_sound hrun.reachable
  have hawake := run_awake hrun hby
  have hstands := stuck_asleep hsound hok hstuck
  have horder := hsound.1.order
  have hposter : ∀ t m, s.pcs t = .postWait m → s.first < s.last := by
    intro t m hpc
    refine Nat.lt_of_le_of_ne horder fun hempty => ?_
    obtain hpos | ⟨u, hu⟩ := hawake.space hempty t (by rw [hpc]; rfl)
    · obtain hidle | ⟨_, hunit⟩ | ⟨⟨_, hat⟩, _⟩ := hstands t
      · rw [hpc] at hidle
        cases hidle
      · omega
      · rw [hpc] at hat
        cases hat
    · obtain hat | ⟨⟨_, hat⟩, _⟩ | ⟨⟨_, hat⟩, _⟩ := hstands u <;>
        · rw [hat] at hu
          cases hu
  constructor
  · intro t
    obtain hpc | ⟨⟨m, hpc⟩, _⟩ | ⟨⟨timeout, hpc⟩, hunit⟩ := hstands t
    · exact Or.inl hpc
    · exact Or.inr (Or.inl ⟨⟨m, hpc⟩, hposter t m hpc⟩)
    · have htf : t = f := hawake.fetcher t (by rw [hpc]; rfl)
      refine Or.inr (Or.inr ⟨htf, ⟨timeout, hpc⟩, ?_⟩)
      by_contra hmail
      have hlt : s.first < s.last := Nat.lt_of_le_of_ne horder hmail
      obtain hpos | ⟨u, hu⟩ := hawake.mail hlt (by rw [← htf, hpc]; rfl)
      · omega
      · obtain hat | ⟨⟨_, hat⟩, _⟩ | ⟨⟨_, hat⟩, _⟩ := hstands u <;>
          · rw [hat] at hu
            cases hu
  · intro t m hpc hidle
    have hwait : s.waitSend ≠ 0 := by
      have hshare := hsound.1.tally.le t
      rw [Function.comp_apply, hpc] at hshare
      exact Nat.ne_of_gt hshare
    have hfree := stuck_free hsound hok hstuck
    have hcall : ∀ s : Mbox μ, fetching f s (.fetch f 0) = true := by simp [fetching]
    have hgoes : ∀ s : Mbox μ, fetching f s (.go f) = true := by simp [fetching]
    obtain ⟨more, hmore, hmeets⟩ :=
      hrun.exec (fetch_signals hcall hgoes hok hidle hfree (hposter t m hpc) hwait)
    exact ⟨more, _, hmore, hmeets, rfl, rfl, Nat.one_pos⟩

/-! ### A full box -/

/-- `FetchedBy`, as a test of actions. -/
def fetchedBy (f : PThread) (_ : Mbox μ) (a : MboxAct μ) : Bool := decide (a.FetchedBy f)

theorem fetchedBy_post (t : PThread) (m : μ) (s : Mbox μ) : fetchedBy f s (.post t m) = true := rfl

theorem fetchedBy_go (t : PThread) (s : Mbox μ) : fetchedBy f s (.go t) = true := rfl

/-- A box with messages in it and nobody at it. -/
def filled (n : Nat) (msgs : Nat → Option Nat) : Mbox Nat :=
  ⟨0, n, msgs, 1, 0, 1, 0, fun _ => .idle, false⟩

theorem filled_post {ok : Mbox Nat → MboxAct Nat → Bool} (hcall : ∀ s, ok s (.post 0 5) = true)
    (hgoes : ∀ s, ok s (.go 0) = true) {n : Nat} (hn : 0 < n) (hroom : n < 127)
    (msgs : Nat → Option Nat) :
    ∃ msgs', (mbox Nat).exec ok (filled n msgs) [.post 0 5, .go 0, .go 0, .go 0, .go 0] =
      some (filled (n + 1) msgs') := by
  refine ⟨Function.update msgs (n % mboxSize) (some 5), ?_⟩
  have hint : ¬2147483647 ≤ n := by omega
  have hfull : ¬127 ≤ n := by omega
  simp [Machine.exec, mbox, step, enter, go, onMutex, semStep, testFull, store, goto, filled,
    mboxSize, intMax, hcall, hgoes, hint, hfull, Nat.ne_of_gt hn]

theorem filled_first {ok : Mbox Nat → MboxAct Nat → Bool} (hcall : ∀ s, ok s (.post 0 5) = true)
    (hgoes : ∀ s, ok s (.go 0) = true) :
    (mbox Nat).exec ok (mbox Nat).start [.post 0 5, .go 0, .go 0, .go 0, .go 0, .go 0] =
      some (filled 1 (Function.update (fun _ => none) 0 (some 5))) := by
  simp [Machine.exec, mbox, step, enter, go, onMutex, onNotEmpty, semStep, testFull, store, goto,
    filled, mboxSize, intMax, hcall, hgoes]

/-- A box is filled by posts. -/
theorem run_filled {n : Nat} (hn : n < 127) : ∃ tr msgs, (mbox Nat).Run tr (filled (n + 1) msgs) ∧
    Machine.Meets (fun s a => fetchedBy 0 s a = true) tr := by
  induction n with
  | zero =>
      obtain ⟨tr, hrun, hmeets⟩ := Machine.Run.start.exec
        (filled_first (fetchedBy_post 0 5) (fetchedBy_go 0))
      exact ⟨_, _, hrun, hmeets⟩
  | succ n ih =>
      obtain ⟨tr, msgs, hrun, hmeets⟩ := ih (by omega)
      obtain ⟨msgs', hexec⟩ :=
        filled_post (fetchedBy_post 0 5) (fetchedBy_go 0) (Nat.succ_pos n) hn msgs
      obtain ⟨more, hmore, hmeets'⟩ := hrun.exec hexec
      exact ⟨_, msgs', hmore, hmeets.append hmeets'⟩

/-- Three posters sleep at a full box, two messages leave, and the one signal they come to wakes
one poster. The two others sleep beside room. -/
theorem run_awake_stuck_full : ∃ tr s, (mbox Nat).Run tr s ∧ s.Stuck ∧
    s.pcs 2 = .postWait 7 ∧ s.pcs 3 = .postWait 8 ∧ s.first = 2 ∧ s.last = 128 ∧
    (∀ t, s.pcs t = .idle ∨ (∃ m, s.pcs t = .postWait m) ∧ s.first < s.last ∨
      t = 0 ∧ (∃ timeout, s.pcs t = .fetchWait timeout) ∧ s.first = s.last) ∧
    ∀ t m, s.pcs t = .postWait m → s.pcs 0 = .idle →
      ∃ more u, (mbox Nat).Run (tr ++ more) u ∧
        Machine.Meets (fun s a => s.fetching 0 a = true) more ∧
          u.first = s.first + 1 ∧ u.pcs = s.pcs ∧ 0 < u.notFull := by
  have posts : ∀ t m (s : Mbox Nat), fetchedBy 0 s (.post t m) = true := fetchedBy_post
  have goes : ∀ t (s : Mbox Nat), fetchedBy 0 s (.go t) = true := fetchedBy_go
  have fetches : ∀ s : Mbox Nat, fetchedBy 0 s (.fetch 0 0) = true := fun _ => rfl
  obtain ⟨tr, msgs, hrun, h₀⟩ := run_filled (n := 126) (by decide)
  obtain ⟨_, hrun, h₁⟩ := hrun.exec (post_sleeps (posts 1 6) (goes 1) rfl rfl rfl (by simp [filled])
    (by simp [filled, intMax]) (by simp [filled, intMax]))
  obtain ⟨_, hrun, h₂⟩ := hrun.exec (post_sleeps (posts 2 7) (goes 2) rfl rfl rfl (by simp [filled])
    (by simp [filled, intMax]) (by simp [filled, intMax]))
  obtain ⟨_, hrun, h₃⟩ := hrun.exec (post_sleeps (posts 3 8) (goes 3) rfl rfl rfl (by simp [filled])
    (by simp [filled, intMax]) (by simp [filled, intMax]))
  obtain ⟨_, hrun, h₄⟩ := hrun.exec (fetch_signals fetches (goes 0) rfl rfl (by simp [filled])
    (by simp [filled]) (by simp))
  obtain ⟨_, hrun, h₅⟩ := hrun.exec (fetch_signals fetches (goes 0) rfl rfl (by simp)
    (by simp [filled]) (by simp))
  obtain ⟨_, hrun, h₆⟩ := hrun.exec (post_wakes (t := 1) (m := 6) (goes 1) rfl rfl rfl rfl
    (by simp [filled]) (by simp [filled]) (by simp [filled, intMax]) (by simp [filled, intMax]))
  have hmeets := (((((h₀.append h₁).append h₂).append h₃).append h₄).append h₅).append h₆
  have hby : Machine.Meets (fun _ (a : MboxAct Nat) => a.FetchedBy 0) _ :=
    hmeets.mono fun _ _ => of_decide_eq_true
  refine ⟨_, _, hrun, ?stuck, rfl, rfl, rfl, rfl, run_awake_stuck hrun hby rfl ?stuck⟩
  intro t
  rcases t with _ | _ | _ | _ | t <;> rfl

/-- With two fetchers a wake-up may be lost: the second message comes into a box with the
first one in it, and nobody signals it to the second sleeper. -/
example : ((mbox Nat).exec (fun _ _ => true) (mbox Nat).start
    [.fetch 0 0, .go 0, .go 0, .go 0, .fetch 1 0, .go 1, .go 1, .go 1,
      .post 2 5, .go 2, .go 2, .go 2, .go 2, .go 2, .post 2 6, .go 2, .go 2, .go 2, .go 2,
      .go 0, .go 0, .go 0, .go 0, .go 0]).map
      (fun s => (s.pcs 0, s.pcs 1, s.pcs 2, s.first, s.last, s.notEmpty)) =
    some (.idle, .fetchWait 0, .idle, 1, 2, 0) := by
  decide

end Mbox

end SysArch

end LwipCs
