import LwipCs.Bridge.InOrder

/-!
# Who owns a received pbuf

lwIP keeps a pbuf whose callback did not return `ERR_OK` and delivers it again.
`go_cs_tcp_recv_h` frees the pbuf in any case, and `go_tcp_recv_h` refuses data for
a PCB whose `err` is set: lwIP is left with a freed pbuf.
-/

namespace LwipCs

open Interleave

/-- A received pbuf was freed once if the callback returned `ERR_OK`, and is lwIP's
otherwise. -/
def Event.owned : Event → Bool
  | .recvReturned _ frees ret => decide (frees = if ret = .ok then 1 else 0)
  | _ => true

/-- Every received pbuf was freed by one side. -/
def AllOwned (trace : List Event) : Prop := ∀ ev ∈ trace, ev.owned = true

/-- lwIP delivers data to a PCB whose `err` is not set. -/
def RecvOpen (s : Sys) : Act → Prop
  | .callback (.recv a (some _) .ok) _ =>
      ∀ x e p, s.tpcbs a = some x → x.arg = some e → s.tcpPcbs e = some p → (s.pcbs p).err = false
  | _ => True

@[simp] theorem allOwned_nil : AllOwned [] := by simp [AllOwned]

@[simp] theorem allOwned_cons {trace : List Event} {ev : Event} :
    AllOwned (ev :: trace) ↔ ev.owned = true ∧ AllOwned trace := List.forall_mem_cons

@[simp] theorem allOwned_append {a b : List Event} :
    AllOwned (a ++ b) ↔ AllOwned a ∧ AllOwned b := List.forall_mem_append

/-- `if Event != nil { Event.… }` -/
theorem allOwned_notify (event : Bool) {ev : Event} (hev : ev.owned = true) :
    AllOwned (if event then [ev] else []) := by
  cases event <;> simp [hev]

variable {cfg : Config} {s t : Sys} {o : Outcomes}

theorem LoopKept.allOwned (h : LoopKept Event.ofGoroutine s t) :
    AllOwned t.trace ↔ AllOwned s.trace := by
  refine h.trace.ind (P := fun tr => AllOwned tr ↔ _) Iff.rfl fun tr ev hev hs => ?_
  cases ev <;> first | contradiction | simp [hs, Event.owned]

/-- After its send on `recvQueued` a receive handler returns `ERR_OK`. -/
theorem LoopStep.allOwned {pc : LoopPc} (h : LoopStep cfg s o pc t) :
    AllOwned t.trace ↔ AllOwned s.trace := by
  cases h with
  | close hclose => exact hclose.loopKept.widen.allOwned
  | @closed p a e k =>
      have hnotify : AllOwned (if cfg.event then [.onClose p] else []) :=
        allOwned_notify cfg.event rfl
      simp [Event.owned, hnotify]
  | _ => simp [Event.owned]

/-- Data for a PCB whose `err` is set is refused, and freed. -/
theorem CallbackStep.allOwned {cb : Callback} (h : CallbackStep cfg s o cb t) :
    AllOwned t.trace ↔ AllOwned s.trace ∧ RecvOpen s (.callback cb o) := by
  have isOpen : ∀ {a e p x err} {data : Bytes}, s.tpcbs a = some x → x.arg = some e →
      s.tcpPcbs e = some p → (s.pcbs p).err = err →
      (RecvOpen s (.callback (.recv a (some data) .ok) o) ↔ err = false) := by
    intro a e p x err data ha harg hp herr
    constructor
    · intro h
      exact herr.symm.trans (h x e p ha harg hp)
    · rintro hfalse y f q hy hf hq
      obtain rfl := Option.some.inj (ha.symm.trans hy)
      obtain rfl := Option.some.inj (harg.symm.trans hf)
      obtain rfl := Option.some.inj (hp.symm.trans hq)
      exact herr.trans hfalse
  cases h with
  | @ignored cb hcb =>
      cases cb with
      | recv => cases hcb
      | _ => simp [RecvOpen]
  | accept _ _ =>
      have hnotify : AllOwned (if cfg.event then [.onAccept s.nextPcb] else []) :=
        allOwned_notify cfg.event rfl
      simp [Event.owned, RecvOpen, hnotify]
  | @assertion a data err herr =>
      cases err with
      | ok => exact absurd rfl herr
      | _ => simp [RecvOpen]
  | recvClosed ha harg hp _ _ herr =>
      rw [isOpen ha harg hp herr]
      simp [Event.owned]
  | recvEmpty ha harg hp _ _ herr =>
      rw [isOpen ha harg hp herr]
      simp [Event.owned]
  | recv ha harg hp _ _ herr _ =>
      rw [isOpen ha harg hp herr]
      simp [Event.owned]
  | udpNew _ _ =>
      have hnotify : AllOwned (if cfg.event then [.onAccept s.nextPcb] else []) :=
        allOwned_notify cfg.event rfl
      simp [RecvOpen, hnotify]
  | _ => simp [Event.owned, RecvOpen]

theorem Step.allOwned {a : Act} (h : Step cfg s a t) :
    AllOwned t.trace ↔ AllOwned s.trace ∧ RecvOpen s a := by
  by_cases ha : a.ofGoroutine = true
  · refine (h.loopKept ha).allOwned.trans (and_iff_left ?_).symm
    cases a <;> trivial
  cases h with
  | loop _ h => simpa [RecvOpen] using h.allOwned
  | callback _ h => exact h.allOwned
  | _ => first | exact absurd rfl ha | simp [Event.owned, RecvOpen]

/-- Every data pbuf is freed by exactly one side, exactly if no data is delivered
between the setting of `err` and the end of the connection. -/
theorem run_allOwned_iff {tr : List (Sys × Act)} (hrun : (bridge cfg).Run tr s) :
    AllOwned s.trace ↔ Machine.Meets RecvOpen tr := by
  have all : Machine.Meets (fun _ _ => True) tr := fun _ _ => trivial
  refine hrun.iff_meets (P := fun s => AllOwned s.trace) all
    (fun h _ => reachable_inOrder h.reachable) allOwned_nil ?_
  intro s a t hs _ hstep
  exact (step_cases hs hstep).allOwned

/-- A chunk is delivered and taken. -/
theorem run_allOwned_recv : ∃ tr s, (bridge Schedule.config).Run tr s ∧
    .recvReturned 0 1 .ok ∈ s.trace ∧ Machine.Meets RecvOpen tr := by
  obtain ⟨tr, s, hrun, _, htest⟩ := Machine.exists_run_of_exec (bridge Schedule.config)
    (fun _ _ => true)
    (Schedule.accept ++ [.callback (.recv 1 (some [9]) .ok) Schedule.fine] ++
      List.replicate 2 (.loop Schedule.fine))
    (fun s => .recvReturned 0 1 .ok ∈ s.trace ∧ s.trace.all Event.owned) (by decide)
  obtain ⟨hmem, howned⟩ := of_decide_eq_true htest
  exact ⟨tr, s, hrun, hmem, (run_allOwned_iff hrun).mp (List.all_eq_true.mp howned)⟩

/-- Data that arrives after `Close` and before the loop has handled it is refused and freed. -/
theorem not_allOwned_closed : ∃ s, (bridge Schedule.config).Reachable s ∧
    .recvReturned 0 1 .other ∈ s.trace ∧ ¬AllOwned s.trace := by
  obtain ⟨tr, s, hrun, _, htest⟩ := Machine.exists_run_of_exec (bridge Schedule.config)
    (fun _ _ => true)
    (Schedule.accept ++ [.call 0 (.close 0), .go 0, .go 0, .go 0,
      .callback (.recv 1 (some [9]) .ok) Schedule.fine])
    (fun s => .recvReturned 0 1 .other ∈ s.trace) (by decide)
  have hmem := of_decide_eq_true htest
  refine ⟨s, hrun.reachable, hmem, ?_⟩
  intro howned
  exact absurd (howned _ hmem) (by decide)

end LwipCs
