import LwipCs.Bridge.InOrder
import Mathlib.Data.List.Infix

/-!
# What a step leaves

A goroutine moves by its own calls and steps, events stay in the trace, and a PCB keeps its
fixed fields and an `err` that is set.
-/

namespace LwipCs

open Interleave

variable {cfg : Config} {s t : Sys} {o : Outcomes} {a : Act} {p : PcbId}

/-! ### Goroutines -/

/-- A goroutine moves by its own calls and steps. -/
theorem Step.thread_kept {th : Tid} (h : Step cfg s a t) (hgo : a ≠ .go th)
    (hcall : ∀ m, a ≠ .call th m) : t.threads th = s.threads th := by
  by_cases ha : a.ofGoroutine = true
  swap
  · rw [(h.callsKept (by simpa using ha)).threads]
  have other : ∀ {u x}, u ≠ th → Function.update s.threads u x th = s.threads th :=
    fun hne => Function.update_of_ne (Ne.symm hne) ..
  have called : ∀ {u m}, Act.call u m = a → u ≠ th := by
    rintro u m rfl rfl
    exact hcall m rfl
  have went : ∀ {u}, Act.go u = a → u ≠ th := by
    rintro u rfl rfl
    exact hgo rfl
  cases h with
  | callRead _ _ => exact other (called rfl)
  | callWrite _ _ => exact other (called rfl)
  | callClose _ _ => exact other (called rfl)
  | callIntercept _ _ => exact other (called rfl)
  | read _ h => cases h <;> first | rfl | exact other (went rfl)
  | write _ h => cases h <;> first | rfl | exact other (went rfl)
  | close _ h =>
      refine (Function.update_of_ne (Ne.symm (went rfl)) ..).trans ?_
      rw [h.callsKept.threads]
  | closed _ => exact other (went rfl)
  | closePost _ _ => exact other (went rfl)
  | intercept _ h => cases h <;> first | rfl | exact other (went rfl)
  | reuse _ _ => rfl
  | userRecv _ => rfl
  | _ => cases ha

/-- A goroutine in a method moves by its own steps. -/
theorem Step.thread_eq {th : Tid} (h : Step cfg s a t) (hgo : a ≠ .go th)
    (hbusy : s.threads th ≠ .idle) : t.threads th = s.threads th := by
  refine h.thread_kept hgo ?_
  rintro m rfl
  cases h with
  | callRead hidle _ => exact hbusy hidle
  | callWrite hidle _ => exact hbusy hidle
  | callClose hidle _ => exact hbusy hidle
  | callIntercept hidle _ => exact hbusy hidle

theorem Step.go_read {th : Tid} {n : Nat} {pc : ReadPc} (h : Step cfg s (.go th) t)
    (hth : s.threads th = .read p n pc) : ReadStep s th p n pc t := by
  cases h with
  | read hth' h =>
      cases hth.symm.trans hth'
      exact h
  | write hth' _ => cases hth.symm.trans hth'
  | close hth' _ => cases hth.symm.trans hth'
  | closed hth' => cases hth.symm.trans hth'
  | closePost hth' _ => cases hth.symm.trans hth'
  | intercept hth' _ => cases hth.symm.trans hth'

theorem Step.go_write {th : Tid} {w : WriteId} {pc : WritePc} (h : Step cfg s (.go th) t)
    (hth : s.threads th = .write p w pc) : WriteStep s th p w pc t := by
  cases h with
  | read hth' _ => cases hth.symm.trans hth'
  | write hth' h =>
      cases hth.symm.trans hth'
      exact h
  | close hth' _ => cases hth.symm.trans hth'
  | closed hth' => cases hth.symm.trans hth'
  | closePost hth' _ => cases hth.symm.trans hth'
  | intercept hth' _ => cases hth.symm.trans hth'

theorem Step.go_busy {th : Tid} (h : Step cfg s (.go th) t) : s.threads th ≠ .idle := by
  intro hth
  cases h with
  | read hth' _ => cases hth.symm.trans hth'
  | write hth' _ => cases hth.symm.trans hth'
  | close hth' _ => cases hth.symm.trans hth'
  | closed hth' => cases hth.symm.trans hth'
  | closePost hth' _ => cases hth.symm.trans hth'
  | intercept hth' _ => cases hth.symm.trans hth'

/-! ### The trace -/

theorem LoopKept.trace_extends {kind : Event → Bool} (h : LoopKept kind s t) :
    s.trace <+: t.trace :=
  h.trace.ind List.prefix_rfl fun _ _ _ hold => hold.trans (List.prefix_append _ _)

theorem LoopStep.trace_extends {pc : LoopPc} (h : LoopStep cfg s o pc t) : s.trace <+: t.trace := by
  cases h with
  | close h => exact h.loopKept.trace_extends
  | _ => simp only [List.append_assoc, List.prefix_append, List.prefix_rfl]

theorem CallbackStep.trace_extends {cb : Callback} (h : CallbackStep cfg s o cb t) :
    s.trace <+: t.trace := by
  cases h <;> simp only [List.append_assoc, List.prefix_append, List.prefix_rfl]

/-- The trace only grows. -/
theorem Step.trace_extends (h : Step cfg s a t) : s.trace <+: t.trace := by
  by_cases ha : a.ofGoroutine = true
  · exact (h.loopKept ha).trace_extends
  cases h with
  | frame _ => exact List.prefix_append _ _
  | takeClose _ _ _ => exact List.prefix_append _ _
  | takeCloseUdp _ _ _ => exact List.prefix_append _ _
  | loop _ h => exact h.trace_extends
  | callback _ h => exact h.trace_extends
  | _ => first | exact List.prefix_rfl | exact absurd rfl ha

theorem Step.trace_mono {ev : Event} (h : Step cfg s a t) (hev : ev ∈ s.trace) : ev ∈ t.trace :=
  h.trace_extends.subset hev

/-! ### PCBs -/

/-- A step of the loop makes no PCB. -/
theorem LoopStep.pcbsKept {pc : LoopPc} (h : LoopStep cfg s o pc t) :
    PcbsKept s.pcbs t.pcbs ∧ t.nextPcb = s.nextPcb := by
  cases h with
  | sendFailed _ _ _ _ _ => exact ⟨.set, rfl⟩
  | sendTcp _ _ _ _ _ _ _ => exact ⟨.set, rfl⟩
  | done _ => exact ⟨.set, rfl⟩
  | close h => exact ⟨h.loopKept.pcbs, h.loopKept.nextPcb⟩
  | closed => exact ⟨.set, rfl⟩
  | _ => exact ⟨.refl, rfl⟩

/-- A callback makes one PCB at most. -/
theorem CallbackStep.pcbsKept {cb : Callback} (h : CallbackStep cfg s o cb t) :
    (PcbsKept s.pcbs t.pcbs ∧ t.nextPcb = s.nextPcb) ∨
      ∃ flow, t.pcbs = Function.update s.pcbs s.nextPcb (newPCB s.nextPcb flow) ∧
        t.nextPcb = s.nextPcb + 1 := by
  cases h with
  | accept _ _ => exact Or.inr ⟨_, rfl, rfl⟩
  | sent _ _ _ _ _ _ _ _ => exact Or.inl ⟨.set, rfl⟩
  | udpNew _ _ => exact Or.inr ⟨_, rfl, rfl⟩
  | _ => exact Or.inl ⟨.refl, rfl⟩

theorem Step.pcbsKept (h : Step cfg s a t) :
    (PcbsKept s.pcbs t.pcbs ∧ t.nextPcb = s.nextPcb) ∨
      ∃ flow, t.pcbs = Function.update s.pcbs s.nextPcb (newPCB s.nextPcb flow) ∧
        t.nextPcb = s.nextPcb + 1 := by
  by_cases ha : a.ofGoroutine = true
  · exact Or.inl ⟨(h.loopKept ha).pcbs, (h.loopKept ha).nextPcb⟩
  cases h with
  | loop _ h => exact Or.inl h.pcbsKept
  | callback _ h => exact h.pcbsKept
  | _ => first | exact Or.inl ⟨.refl, rfl⟩ | exact absurd rfl ha

theorem Step.nextPcb_le (h : Step cfg s a t) : s.nextPcb ≤ t.nextPcb := by
  rcases h.pcbsKept with ⟨_, hnext⟩ | ⟨_, _, hnext⟩
  · exact hnext.ge
  · exact hnext.ge.trans' (Nat.le_succ _)

/-- The fixed fields of a PCB that was made are fixed. -/
theorem Step.flow_eq (h : Step cfg s a t) (hp : p < s.nextPcb) :
    (t.pcbs p).toFlow = (s.pcbs p).toFlow := by
  rcases h.pcbsKept with ⟨hkept, _⟩ | ⟨_, hpcbs, _⟩
  · exact hkept.flow p
  · rw [hpcbs, Function.update_of_ne (Nat.ne_of_lt hp)]

/-- `err` stays set. -/
theorem Step.err_stays (h : Step cfg s a t) (hp : p < s.nextPcb)
    (herr : (s.pcbs p).err = true) : (t.pcbs p).err = true := by
  rcases h.pcbsKept with ⟨hkept, _⟩ | ⟨_, hpcbs, _⟩
  · by_contra hopen
    have hopen := hkept.isOpen p (by simpa using hopen)
    rw [herr] at hopen
    cases hopen
  · rwa [hpcbs, Function.update_of_ne (Nat.ne_of_lt hp)]

/-- Along a run a PCB has had the fields it has at the end. -/
theorem run_flow_eq {tr : List (Sys × Act)} (hrun : (bridge cfg).Run tr s) :
    ∀ x ∈ tr, x.1.nextPcb ≤ s.nextPcb ∧
      ∀ p, p < x.1.nextPcb → (x.1.pcbs p).toFlow = (s.pcbs p).toFlow := by
  induction hrun with
  | start =>
      intro x hx
      cases hx
  | @step tr s t a hrun hstep ih =>
      have hcases := step_cases (reachable_inOrder hrun.reachable) hstep
      intro x hx
      rcases List.mem_append.mp hx with hx | hx
      · obtain ⟨hle, hflow⟩ := ih x hx
        refine ⟨Nat.le_trans hle hcases.nextPcb_le, ?_⟩
        intro p hp
        rw [hcases.flow_eq (Nat.lt_of_lt_of_le hp hle), hflow p hp]
      · rw [List.mem_singleton.mp hx]
        exact ⟨hcases.nextPcb_le, fun p hp => (hcases.flow_eq hp).symm⟩

end LwipCs
