import LwipCs.Bridge.CloseOnce
import LwipCs.Bridge.UdpFlows
import LwipCs.Bridge.UdpSend

/-!
# The registration of UDP PCBs

`closeQueue` holds PCBs and the loop deletes by key. The first entry of a PCB that is
handled finds it under its key; a later one deletes whatever PCB the key has come to
stand for.
-/

namespace LwipCs

open Interleave

/-- A UDP PCB whose `err` is not set. -/
def OpenUdp (nextPcb : PcbId) (pcbs : PcbId → PCB) (p : PcbId) : Prop :=
  Made nextPcb pcbs .udp p ∧ (pcbs p).err = false

/-- The key of a UDP PCB. -/
def PCB.key (cfg : Config) (x : PCB) : Key := udpKey cfg.host x.remoteEnd

/-- A key has at most one open UDP PCB, and is mapped to it. -/
def Sys.UdpRegistered (cfg : Config) (s : Sys) : Prop :=
  ∀ p, OpenUdp s.nextPcb s.pcbs p → s.udpPcbs ((s.pcbs p).key cfg) = some p ∧
    ∀ q, OpenUdp s.nextPcb s.pcbs q → (s.pcbs q).key cfg = (s.pcbs p).key cfg → q = p

/-- The loop takes an entry of the UDP PCB `p` from `closeQueue`. -/
def Sys.Unregisters (s : Sys) (a : Act) (p : PcbId) : Prop :=
  (∃ o, a = .take .close o) ∧ s.closeQueue.buf.head? = some p ∧ (s.pcbs p).type = .udp

/-- An entry of a UDP PCB removes no other PCB from `udpPcbs`. -/
def RemovesOwn (cfg : Config) (s : Sys) (a : Act) : Prop :=
  ∀ p, s.Unregisters a p → ∀ t, step cfg s a = some t →
    ∀ key q, s.udpPcbs key = some q → q ≠ p → t.udpPcbs key = some q

/-- The entry that the loop takes is the first one of its UDP PCB to be handled, or nothing is
registered under its key. -/
def RemovesOnce (cfg : Config) (s : Sys) (a : Act) : Prop :=
  ∀ p, s.Unregisters a p →
    (∀ key, .udpRemoved p key ∉ s.trace) ∨ s.udpPcbs ((s.pcbs p).key cfg) = none

variable {cfg : Config} {s t : Sys} {o : Outcomes} {a : Act} {p : PcbId}

/-! ### The table -/

/-- Only the select on `closeQueue` and `go_udp_recv_h` change `udpPcbs`. -/
theorem Step.udpPcbs_cases (h : Step cfg s a t) :
    t.udpPcbs = s.udpPcbs ∨
      (∃ p, s.Unregisters a p ∧
        t.udpPcbs = Function.update s.udpPcbs ((s.pcbs p).key cfg) none) ∨
      ∃ key, s.udpPcbs key = none ∧
        t.udpPcbs = Function.update s.udpPcbs key (some s.nextPcb) := by
  by_cases ha : a.ofGoroutine = true
  · exact Or.inl (h.loopKept ha).udpPcbs
  cases h with
  | @takeCloseUdp o p _ _ hrecv htype =>
      refine Or.inr (Or.inl ⟨p, ⟨⟨o, rfl⟩, ?_, htype⟩, rfl⟩)
      rw [(Chan.recv_some hrecv).1]
      rfl
  | loop _ h =>
      cases h with
      | close h => exact Or.inl h.loopKept.udpPcbs
      | _ => exact Or.inl rfl
  | callback _ h =>
      cases h with
      | udpNew hp _ => exact Or.inr (Or.inr ⟨_, hp, rfl⟩)
      | _ => exact Or.inl rfl
  | _ => first | exact absurd rfl ha | exact Or.inl rfl

/-- The entry that is taken is removed from `udpPcbs` under its key. -/
theorem Step.unregisters (h : Step cfg s a t) (hp : s.Unregisters a p) :
    t.udpPcbs = Function.update s.udpPcbs ((s.pcbs p).key cfg) none ∧
      .udpRemoved p ((s.pcbs p).key cfg) ∈ t.trace := by
  obtain ⟨⟨o, rfl⟩, hhead, htype⟩ := hp
  cases h with
  | takeClose _ hrecv hother =>
      rw [(Chan.recv_some hrecv).1] at hhead
      cases hhead
      cases hother.symm.trans htype
  | takeCloseUdp _ hrecv _ =>
      rw [(Chan.recv_some hrecv).1] at hhead
      cases hhead
      exact ⟨rfl, List.mem_append_right _ (List.mem_singleton_self _)⟩

/-- A UDP PCB just made is in the table. -/
theorem Step.made_of (h : Step cfg s a t) (hp : Made t.nextPcb t.pcbs .udp p) :
    p < s.nextPcb ∨ t.udpPcbs ((t.pcbs p).key cfg) = some p := by
  have hlt := hp.1
  by_cases ha : a.ofGoroutine = true
  · exact Or.inl ((h.loopKept ha).nextPcb ▸ hlt)
  cases h with
  | loop _ h => exact Or.inl (h.pcbsKept.2 ▸ hlt)
  | callback _ h =>
      cases h with
      | accept _ _ =>
          refine Or.inl (Nat.lt_of_le_of_ne (Nat.le_of_lt_succ hlt) ?_)
          rintro rfl
          have htype := hp.2
          simp only [Function.update_self] at htype
          cases htype
      | udpNew _ _ =>
          rcases Nat.lt_succ_iff_lt_or_eq.mp hlt with hlt | rfl
          · exact Or.inl hlt
          · right
            simp only [Function.update_self]
            exact Function.update_self ..
      | _ => exact Or.inl hlt
  | _ => first | exact absurd rfl ha | exact Or.inl hlt

/-! ### Entries handled -/

/-- Only the select on `closeQueue` removes entries. -/
theorem Step.removed_of {key : Key} (h : Step cfg s a t) (ht : .udpRemoved p key ∈ t.trace) :
    .udpRemoved p key ∈ s.trace ∨ s.Unregisters a p := by
  by_cases ha : a.ofGoroutine = true
  · exact Or.inl ((h.loopKept ha).trace.mem ht)
  cases h with
  | @takeCloseUdp o q _ _ hrecv htype =>
      rcases List.mem_append.mp ht with ht | ht
      · exact Or.inl ht
      · cases List.mem_singleton.mp ht
        refine Or.inr ⟨⟨o, rfl⟩, ?_, htype⟩
        rw [(Chan.recv_some hrecv).1]
        rfl
  | loop _ h =>
      cases h with
      | close h => exact Or.inl (h.loopKept.trace.mem ht)
      | _ => exact Or.inl (by simpa using ht)
  | callback _ h => cases h <;> exact Or.inl (by simpa using ht)
  | _ => first | exact absurd rfl ha | exact Or.inl (by simpa using ht)

theorem thread_of_update {threads : Tid → Thread} {u th : Tid} {x y : Thread}
    (h : Function.update threads u x th = y) : (th = u ∧ x = y) ∨ threads th = y := by
  by_cases hth : th = u
  · subst hth
    rw [Function.update_self] at h
    exact Or.inl ⟨rfl, h⟩
  · rw [Function.update_of_ne hth] at h
    exact Or.inr h

/-- A goroutine is about to post an entry once `close` has returned. -/
theorem Step.closePost_of {th : Tid} (h : Step cfg s a t) (hth : t.threads th = .closePost p) :
    s.threads th = .closePost p ∨ s.threads th = .close p .unlock := by
  have other : ∀ {u x}, Function.update s.threads u x th = .closePost p →
      x ≠ .closePost p → s.threads th = .closePost p := by
    intro u x hu hx
    rcases thread_of_update hu with ⟨_, hsame⟩ | hsame
    · exact absurd hsame hx
    · exact hsame
  by_cases ha : a.ofGoroutine = false
  · rw [(h.callsKept ha).threads] at hth
    exact Or.inl hth
  cases h with
  | callRead _ _ => exact Or.inl (other hth nofun)
  | callWrite _ _ => exact Or.inl (other hth nofun)
  | callClose _ _ => exact Or.inl (other hth nofun)
  | callIntercept _ _ => exact Or.inl (other hth nofun)
  | read _ h => cases h <;> first | exact Or.inl hth | exact Or.inl (other hth nofun)
  | write _ h => cases h <;> first | exact Or.inl hth | exact Or.inl (other hth nofun)
  | close _ h =>
      refine Or.inl ?_
      rw [h.callsKept.threads] at hth
      exact other hth nofun
  | closed hunlock =>
      rcases thread_of_update hth with ⟨rfl, hsame⟩ | hsame
      · cases hsame
        exact Or.inr hunlock
      · exact Or.inl hsame
  | closePost _ _ => exact Or.inl (other hth nofun)
  | intercept _ h => cases h <;> first | exact Or.inl hth | exact Or.inl (other hth nofun)
  | reuse _ _ => exact Or.inl hth
  | userRecv _ => exact Or.inl hth
  | _ => exact absurd rfl ha

/-- An entry of `closeQueue` was posted after `close`. -/
theorem Step.posted_of (h : Step cfg s a t) (hp : p ∈ t.closeQueue.buf) :
    p ∈ s.closeQueue.buf ∨ ∃ th, s.threads th = .closePost p := by
  cases h with
  | read _ h => cases h <;> exact Or.inl hp
  | write _ h => cases h <;> exact Or.inl hp
  | close _ h => cases h <;> exact Or.inl hp
  | closePost hth hsend =>
      rw [(Chan.send_done hsend).2.2.1] at hp
      rcases List.mem_append.mp hp with hp | hp
      · exact Or.inl hp
      · obtain rfl := List.mem_singleton.mp hp
        exact Or.inr ⟨_, hth⟩
  | intercept _ h => cases h <;> exact Or.inl hp
  | takeClose _ hrecv _ =>
      rw [(Chan.recv_some hrecv).1]
      exact Or.inl (List.mem_cons_of_mem _ hp)
  | takeCloseUdp _ hrecv _ =>
      rw [(Chan.recv_some hrecv).1]
      exact Or.inl (List.mem_cons_of_mem _ hp)
  | loop _ h =>
      cases h with
      | close h => cases h <;> exact Or.inl hp
      | _ => exact Or.inl hp
  | callback _ h => cases h <;> exact Or.inl hp
  | _ => exact Or.inl hp

/-- A PCB whose entry is posted or handled has `err` set, and once it was handled the PCB is in
`udpPcbs` no more. -/
structure Sys.Gone (s : Sys) : Prop where
  posting : ∀ p th, s.threads th = .closePost p → (s.pcbs p).err = true
  posted : ∀ p ∈ s.closeQueue.buf, (s.pcbs p).err = true
  removed : ∀ p key, .udpRemoved p key ∈ s.trace → p < s.nextPcb ∧ (s.pcbs p).err = true
  absent : ∀ p key, .udpRemoved p key ∈ s.trace → ∀ key', s.udpPcbs key' ≠ some p

theorem Step.gone (h : Step cfg s a t) (hs : s.Gone) (hknown : s.InUse) (hflows : s.InFlows cfg)
    (honce : s.ClosedOnce) : t.Gone := by
  have made : ∀ {p th}, s.threads th = .closePost p → p < s.nextPcb := by
    intro p th hth
    have hok := hknown.threads th
    rwa [hth] at hok
  have head : ∀ {p}, s.Unregisters a p → p ∈ s.closeQueue.buf :=
    fun hp => List.mem_of_mem_head? hp.2.1
  have handled : ∀ {p}, s.Unregisters a p → p < s.nextPcb ∧ (s.pcbs p).err = true :=
    fun hp => ⟨hknown.closes _ (head hp), hs.posted _ (head hp)⟩
  constructor
  · intro p th hth
    rcases h.closePost_of hth with hold | hunlock
    · exact h.err_stays (made hold) (hs.posting p th hold)
    · have hok := hknown.threads th
      rw [hunlock] at hok
      refine h.err_stays hok (honce.erred (.goroutine th) p .unlock ?_ rfl)
      rw [inClose, hunlock]
      rfl
  · intro p hp
    rcases h.posted_of hp with hold | ⟨th, hth⟩
    · exact h.err_stays (hknown.closes p hold) (hs.posted p hold)
    · exact h.err_stays (made hth) (hs.posting p th hth)
  · intro p key hp
    have hbefore : p < s.nextPcb ∧ (s.pcbs p).err = true := by
      rcases h.removed_of hp with hold | hnow
      · exact hs.removed p key hold
      · exact handled hnow
    exact ⟨Nat.lt_of_lt_of_le hbefore.1 h.nextPcb_le, h.err_stays hbefore.1 hbefore.2⟩
  · intro p key hp key' hkey'
    have hlt : p < s.nextPcb := by
      rcases h.removed_of hp with hold | hnow
      · exact (hs.removed p key hold).1
      · exact (handled hnow).1
    -- a key that is mapped to `p` after the step was so before
    have hbefore : s.udpPcbs key' = some p := by
      rcases h.udpPcbs_cases with hsame | ⟨q, _, hsame⟩ | ⟨_, _, hsame⟩ <;> rw [hsame] at hkey'
      · exact hkey'
      · rw [Function.update_apply] at hkey'
        split at hkey'
        · cases hkey'
        · exact hkey'
      · rw [Function.update_apply] at hkey'
        split at hkey'
        · cases hkey'
          exact absurd hlt (Nat.lt_irrefl _)
        · exact hkey'
    rcases h.removed_of hp with hold | hnow
    · exact hs.absent p key hold key' hbefore
    · have hkey : (s.pcbs p).key cfg = key' := (hflows.known key' p hbefore).2
      rw [(h.unregisters hnow).1, hkey, Function.update_self] at hkey'
      cases hkey'

theorem reachable_gone (h : (bridge cfg).Reachable s) : s.Gone := by
  refine h.invariant_of (J := fun s => s.InOrder ∧ s.InFlows cfg ∧ s.ClosedOnce)
    (fun h => ⟨reachable_inOrder h, reachable_inFlows h, reachable_closedOnce h⟩) ?_ ?_
  · exact ⟨nofun, nofun, nofun, nofun⟩
  · intro s a t hs _ hgone hstep
    exact (step_cases hs.1 hstep).gone hgone hs.1.known hs.2.1 hs.2.2

/-! ### Registration -/

/-- A UDP PCB none of whose entries was handled is registered. -/
def Sys.Entered (cfg : Config) (s : Sys) : Prop :=
  ∀ p, Made s.nextPcb s.pcbs .udp p → (∀ key, .udpRemoved p key ∉ s.trace) →
    s.udpPcbs ((s.pcbs p).key cfg) = some p

theorem Sys.Entered.udpRegistered (h : s.Entered cfg) (hgone : s.Gone) : s.UdpRegistered cfg := by
  have registered : ∀ p, OpenUdp s.nextPcb s.pcbs p →
      s.udpPcbs ((s.pcbs p).key cfg) = some p := by
    rintro p ⟨hmade, hopen⟩
    refine h p hmade fun key hremoved => ?_
    rw [(hgone.removed p key hremoved).2] at hopen
    cases hopen
  intro p hp
  refine ⟨registered p hp, fun q hq hkey => ?_⟩
  have hsame := registered q hq
  rw [hkey, registered p hp] at hsame
  exact (Option.some.inj hsame).symm

/-- While the PCBs are registered, an entry removes its own PCB alone exactly if it is the first
or finds nothing under its key. -/
theorem Step.removesOwn_iff (h : Step cfg s a t) (hstep : step cfg s a = some t)
    (hknown : s.InUse) (hgone : s.Gone) (hs : s.Entered cfg) :
    RemovesOwn cfg s a ↔ RemovesOnce cfg s a := by
  constructor
  · intro hown p hp
    by_contra hnot
    obtain ⟨hlate, hmapped⟩ := not_or.mp hnot
    obtain ⟨key, hremoved⟩ := not_forall.mp hlate
    obtain ⟨q, hq⟩ := Option.ne_none_iff_exists'.mp hmapped
    have hne : q ≠ p := by
      rintro rfl
      exact hgone.absent q key (not_not.mp hremoved) _ hq
    have hkept := hown p hp t hstep _ q hq hne
    rw [(h.unregisters hp).1, Function.update_self] at hkept
    cases hkept
  · intro honce p hp t' hstep' key q hq hne
    obtain rfl := Option.some.inj (hstep.symm.trans hstep')
    have hkey : key ≠ (s.pcbs p).key cfg := by
      rintro rfl
      rcases honce p hp with hfirst | hnone
      · have hin := hs p ⟨hknown.closes p (List.mem_of_mem_head? hp.2.1), hp.2.2⟩ hfirst
        exact hne (Option.some.inj (hq.symm.trans hin))
      · cases hq.symm.trans hnone
    rw [(h.unregisters hp).1, Function.update_of_ne hkey]
    exact hq

theorem Step.entered (h : Step cfg s a t) (hstep : step cfg s a = some t) (hs : s.Entered cfg)
    (hown : RemovesOwn cfg s a) : t.Entered cfg := by
  intro p hp hnever
  rcases h.made_of hp with hlt | hnew
  · have hflow := h.flow_eq hlt
    have hmade : Made s.nextPcb s.pcbs .udp p := ⟨hlt, (congrArg Flow.type hflow).symm.trans hp.2⟩
    have hkey : (t.pcbs p).key cfg = (s.pcbs p).key cfg := by rw [PCB.key, PCB.key, hflow]
    have hin := hs p hmade fun key hremoved => hnever key (h.trace_mono hremoved)
    rw [hkey]
    rcases h.udpPcbs_cases with hsame | ⟨q, hq, _⟩ | ⟨key, hfree, hsame⟩
    · rw [hsame]
      exact hin
    · refine hown q hq t hstep _ p hin ?_
      rintro rfl
      exact hnever _ (h.unregisters hq).2
    · rw [hsame, Function.update_of_ne, hin]
      rintro rfl
      cases hin.symm.trans hfree
  · exact hnew

/-- An entry of a UDP PCB removes that PCB alone, and the open UDP PCBs are registered all along a
run, exactly if each entry handled is the first one of its PCB or finds nothing under its
key. -/
theorem run_udpRegistered_iff {tr : List (Sys × Act)} (hrun : (bridge cfg).Run tr s) :
    (Machine.Meets (RemovesOwn cfg) tr ∧ Machine.Always (fun s => s.UdpRegistered cfg) tr s) ↔
      Machine.Meets (RemovesOnce cfg) tr := by
  have both : ∀ {tr s}, (bridge cfg).Run tr s →
      (Machine.Meets (RemovesOwn cfg) tr ↔ Machine.Meets (RemovesOnce cfg) tr) ∧
        (Machine.Meets (RemovesOwn cfg) tr → s.Entered cfg) := by
    intro tr s hrun
    induction hrun with
    | start =>
        refine ⟨iff_of_true (Machine.meets_nil _) (Machine.meets_nil _), fun _ p hp => ?_⟩
        exact absurd hp.1 (Nat.not_lt_zero p)
    | step hrun hstep ih =>
        obtain ⟨hiff, hentered⟩ := ih
        have hin := reachable_inOrder hrun.reachable
        have hcases := step_cases hin hstep
        have hdecides := fun hmeets => hcases.removesOwn_iff hstep hin.known
          (reachable_gone hrun.reachable) (hentered hmeets)
        refine ⟨?_, fun hmeets => ?_⟩
        · rw [Machine.meets_snoc, Machine.meets_snoc, ← hiff]
          exact and_congr_right hdecides
        · obtain ⟨hfront, hlast⟩ := Machine.meets_snoc.mp hmeets
          exact hcases.entered hstep (hentered hfront) hlast
  constructor
  · rintro ⟨hown, _⟩
    exact (both hrun).1.mp hown
  · intro honce
    refine ⟨(both hrun).1.mpr honce, hrun.always honce fun hrun honce => ?_⟩
    exact ((both hrun).2 ((both hrun).1.mpr honce)).udpRegistered (reachable_gone hrun.reachable)

namespace Schedule

/-- `RemovesOnce` of one step. -/
def removesOnce (s : Sys) : Act → Bool
  | .take .close _ => s.closeQueue.buf.head?.all fun p =>
      (s.trace.all fun ev => match ev with
        | .udpRemoved q _ => q ≠ p
        | _ => true) || s.udpPcbs ((s.pcbs p).key config) = none
  | _ => true

/-- The goroutine 0 calls `Close` on the UDP PCB 0, up to its send to `closeQueue`. -/
def closeUdp : List Act := [.call 0 (.close 0)] ++ List.replicate 7 (.go 0)

/-- The goroutine 0 calls `Close` on it again. -/
def closeAgain : List Act := [.call 0 (.close 0)] ++ List.replicate 4 (.go 0)

/-- A second datagram from the source of the first. -/
def udpAgain : List Act :=
  enterLwip ++ [.callback (.udp ⟨.v4 1, 4000⟩ ⟨.v4 2, 53⟩ (some [2])) fine, .loop fine, .loop fine,
    .loop fine]

end Schedule

/-- A flow is closed twice, opened again, and stays. -/
theorem run_udpRegistered_reopened : ∃ tr s, (bridge Schedule.config).Run tr s ∧
    .udpRemoved 0 ((s.pcbs 0).key Schedule.config) ∈ s.trace ∧ OpenUdp s.nextPcb s.pcbs 1 ∧
      Machine.Meets (RemovesOwn Schedule.config) tr ∧
        Machine.Always (fun s => s.UdpRegistered Schedule.config) tr s := by
  obtain ⟨tr, s, hrun, hmeets, htest⟩ := Machine.exists_run_of_exec (bridge Schedule.config)
    Schedule.removesOnce
    (Schedule.udpOpen ++ Schedule.closeUdp ++ Schedule.closeAgain ++
      [.take .close Schedule.fine, .take .close Schedule.fine] ++ Schedule.udpAgain)
    (fun s => .udpRemoved 0 ((s.pcbs 0).key Schedule.config) ∈ s.trace ∧
      1 < s.nextPcb ∧ (s.pcbs 1).type = .udp ∧ (s.pcbs 1).err = false) (by decide)
  obtain ⟨hremoved, hlt, htype, hopen⟩ := of_decide_eq_true htest
  refine ⟨tr, s, hrun, hremoved, ⟨⟨hlt, htype⟩, hopen⟩, (run_udpRegistered_iff hrun).mpr ?_⟩
  refine hmeets.mono ?_
  rintro s a honce p ⟨⟨o, rfl⟩, hhead, _⟩
  simp only [Schedule.removesOnce, hhead, Option.all_some, Bool.or_eq_true] at honce
  rcases honce with hfirst | hnone
  · refine Or.inl fun key hremoved => ?_
    simpa using List.all_eq_true.mp hfirst _ hremoved
  · exact Or.inr (of_decide_eq_true hnone)

/-- `Close` twice: the second entry is handled when a datagram has opened the flow again. -/
theorem not_udpRegistered_stale : ∃ tr s, (bridge Schedule.config).Run tr s ∧ s.loop = .select ∧
    ¬(Machine.Meets (RemovesOwn Schedule.config) tr ∧
      Machine.Always (fun s => s.UdpRegistered Schedule.config) tr s) := by
  obtain ⟨tr, s, hrun, _, htest⟩ := Machine.exists_run_of_exec (bridge Schedule.config)
    (fun _ _ => true)
    (Schedule.udpOpen ++ Schedule.closeUdp ++ Schedule.closeAgain ++
      [.take .close Schedule.fine] ++ Schedule.udpAgain ++ [.take .close Schedule.fine])
    (fun s => s.loop = .select ∧ 1 < s.nextPcb ∧ (s.pcbs 1).type = .udp ∧
      (s.pcbs 1).err = false ∧ s.udpPcbs ((s.pcbs 1).key Schedule.config) = none) (by decide)
  obtain ⟨hloop, hlt, htype, hopen, hnone⟩ := of_decide_eq_true htest
  refine ⟨tr, s, hrun, hloop, ?_⟩
  rintro ⟨_, _, hregistered⟩
  cases hnone.symm.trans (hregistered 1 ⟨⟨hlt, htype⟩, hopen⟩).1

end LwipCs
