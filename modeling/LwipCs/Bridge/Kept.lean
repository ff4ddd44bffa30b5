import LwipCs.Bridge.Output
import LwipCs.Bridge.ReadBound

/-!
# What the steps of others leave

A goroutine moves by its own calls and steps, its chunks are read and its locks taken by
them, and a buffer in use keeps its bytes.
-/

namespace LwipCs

open Interleave

variable {cfg : Config} {s t : Sys} {a : Act} {p : PcbId}

theorem CallsKept.reads_eq (h : CallsKept s t) :
    select (Event.readOn p) t.trace = select (Event.readOn p) s.trace := by
  refine h.trace.select_eq ?_
  intro ev hev
  cases ev <;> first | rfl | cases hev

theorem CallsKept.locks_eq (h : CallsKept s t) :
    select (Event.lockedOn p) t.trace = select (Event.lockedOn p) s.trace := by
  refine h.trace.select_eq ?_
  intro ev hev
  cases ev <;> first | rfl | cases hev

/-- The methods other than `Write` take no lock for it. -/
theorem LoopKept.locks_eq (h : LoopKept Event.ofReadClose s t) :
    select (Event.lockedOn p) t.trace = select (Event.lockedOn p) s.trace := by
  refine h.trace.select_eq ?_
  intro ev hev
  cases ev <;> first | rfl | cases hev

/-- Only a step of a goroutine in `Read` of `p` returns a chunk of `p`. -/
theorem Step.reads_eq (h : Step cfg s a t)
    (hother : ∀ th n pc, a = .go th → s.threads th ≠ .read p n pc) :
    select (Event.readOn p) t.trace = select (Event.readOn p) s.trace := by
  by_cases ha : a.ofGoroutine = false
  · exact (h.callsKept ha).reads_eq
  cases h with
  | callClose _ _ => exact select_snoc_of_none rfl _
  | @read th q n pc s' hth h =>
      have hq : q ≠ p := by
        rintro rfl
        exact hother th n pc rfl hth
      cases h <;> simp [Event.readOn, hq]
  | write _ h => cases h <;> simp [Event.readOn]
  | close _ h => exact h.callsKept.reads_eq
  | intercept _ h => cases h <;> rfl
  | _ => first | exact absurd rfl ha | rfl

/-- Only a step of a goroutine in `Write` on `p` takes the lock for it. -/
theorem Step.locks_eq (h : Step cfg s a t)
    (hother : ∀ th w pc, a = .go th → s.threads th ≠ .write p w pc) :
    select (Event.lockedOn p) t.trace = select (Event.lockedOn p) s.trace := by
  by_cases ha : a.ofGoroutine = false
  · exact (h.callsKept ha).locks_eq
  cases h with
  | callClose _ _ => exact select_snoc_of_none rfl _
  | read _ h => exact h.loopKept.locks_eq
  | @write th q w pc s' hth h =>
      have hq : q ≠ p := by
        rintro rfl
        exact hother th w pc rfl hth
      cases h <;> simp [Event.lockedOn, hq]
  | close _ h => exact h.loopKept.locks_eq
  | intercept _ h => exact h.loopKept.locks_eq
  | _ => first | exact absurd rfl ha | rfl

/-- A buffer in use keeps its bytes. -/
theorem Step.data_eq {w : WriteId} (h : Step cfg s a t) (hlt : w < s.nextWrite)
    (huse : (s.bufs w).inUse = true) : (t.bufs w).data = (s.bufs w).data := by
  by_cases ha : a.ofGoroutine = false
  · rw [(h.callsKept ha).bufs]
  cases h with
  | callWrite _ _ => exact congrArg Buffer.data (Function.update_of_ne (Nat.ne_of_lt hlt) ..)
  | read hth h => rw [(h.writesKept hth).bufs]
  | write _ h => cases h <;> first | rfl | exact update_field Buffer.data (by rfl) w
  | close _ h => exact congrArg (fun b => (b w).data) h.writesKept.bufs
  | intercept hth h => rw [(h.writesKept hth).bufs]
  | @reuse v data hdone _ =>
      have hne : w ≠ v := by
        rintro rfl
        rw [hdone] at huse
        cases huse
      exact congrArg Buffer.data (Function.update_of_ne hne ..)
  | _ => first | exact absurd rfl ha | rfl

/-- A goroutine that was never called is idle. -/
theorem run_uncalled {tr : List (Sys × Act)} (hrun : (bridge cfg).Run tr s) {th : Tid}
    (huncalled : ∀ x ∈ tr, ∀ m, x.2 ≠ .call th m) : s.threads th = .idle := by
  induction hrun with
  | start => rfl
  | @step tr s t a hrun hstep ih =>
      have hidle := ih fun x hx => huncalled x (List.mem_append_left _ hx)
      have hstep := step_cases (reachable_inOrder hrun.reachable) hstep
      refine (hstep.thread_kept ?_ (huncalled (s, a) (by simp))).trans hidle
      rintro rfl
      exact hstep.go_busy hidle

end LwipCs
