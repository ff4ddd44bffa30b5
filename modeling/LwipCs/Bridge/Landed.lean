import LwipCs.Bridge.Queued
import LwipCs.Bridge.Released

/-!
# What the receive handlers take for a PCB

A receive handler takes a chunk for the PCB it finds in its table, or makes for a datagram. The
chunk is then in the hands of the loop until it is queued.
-/

namespace LwipCs

open Interleave

/-- The PCB under the state object of a `tcp_pcb`. -/
def Sys.entry (s : Sys) (a : Ptr) : Option PcbId := ((s.tpcbs a).bind (·.arg)).bind s.tcpPcbs

/-- `go_udp_recv_h` finds `p` for a source, or makes it. -/
def Sys.Finds (s : Sys) (cfg : Config) (p : PcbId) (src : Endpoint) : Prop :=
  s.udpPcbs (udpKey cfg.host src) = some p ∨
    (s.udpPcbs (udpKey cfg.host src) = none ∧ p = s.nextPcb)

instance (s : Sys) (cfg : Config) (p : PcbId) (src : Endpoint) : Decidable (s.Finds cfg p src) :=
  inferInstanceAs (Decidable (_ ∨ _))

/-- The chunk that a receive handler takes for `p` in the step. -/
def handed (cfg : Config) (p : PcbId) (s : Sys) : Act → Option Bytes
  | .callback (.recv a (some data) .ok) _ =>
      if data ≠ [] ∧ s.entry a = some p ∧ (s.pcbs p).err = false then some data else none
  | .callback (.udp src _ (some data)) _ =>
      if data ≠ [] ∧ s.Finds cfg p src then some data else none
  | _ => none

variable {cfg : Config} {s t : Sys} {o : Outcomes} {a : Act} {p : PcbId}

/-- The chunks queued on `p`, and the one about to be. -/
def Sys.landed (s : Sys) (p : PcbId) : List Bytes :=
  select (Event.queuedOn p) s.trace ++ s.loop.pushing p

theorem landed_eq {pc : LoopPc} (hloop : s.loop = pc) :
    s.landed p = select (Event.queuedOn p) s.trace ++ pc.pushing p := by
  rw [Sys.landed, hloop]

/-- A goroutine takes nothing for a PCB. -/
theorem LoopKept.landed (h : LoopKept Event.ofGoroutine s t) : t.landed p = s.landed p := by
  rw [Sys.landed, h.loop, h.trace.select_eq ?_, Sys.landed]
  intro ev hev
  cases ev <;> first | rfl | cases hev

theorem LoopStep.landed {pc : LoopPc} (hpc : s.loop = pc) (h : LoopStep cfg s o pc t) :
    t.landed p = s.landed p := by
  rw [landed_eq hpc]
  cases h with
  | @push q data k r ch hsend =>
      simp only [Sys.landed, select_snoc, Event.queuedOn, LoopPc.pushing]
      split <;> simp
  | @pushUdp q data src dst old r ch hsend =>
      simp only [Sys.landed, select_snoc, Event.queuedOn, LoopPc.pushing]
      split <;> simp
  | @close q c c' b e k s' h =>
      have hkept := h.loopKept.widen
      have hlanded := hkept.landed (p := p)
      rw [landed_eq (hkept.loop.trans hpc), landed_eq hpc] at hlanded
      exact hlanded
  | closed => cases hevent : cfg.event <;> simp [Sys.landed, Event.queuedOn, LoopPc.pushing]
  | _ => simp [Sys.landed, hpc, Event.queuedOn, LoopPc.pushing]

theorem entry_eq {a e : Ptr} {x : TcpPcb} {q : PcbId} (ha : s.tpcbs a = some x)
    (harg : x.arg = some e) (hq : s.tcpPcbs e = some q) : s.entry a = some q := by
  rw [Sys.entry, ha, Option.bind_some, harg, Option.bind_some, hq]

/-- A callback begins in lwIP, where no chunk is in the hands of the loop. -/
theorem CallbackStep.landed {cb : Callback} (hloop : s.loop = .lwip)
    (h : CallbackStep cfg s o cb t) :
    t.landed p = s.landed p ++ (handed cfg p s (.callback cb o)).toList := by
  have hlanded : s.landed p = select (Event.queuedOn p) s.trace := by
    rw [landed_eq hloop]
    exact List.append_nil _
  rw [hlanded]
  cases h with
  | @ignored cb hcb =>
      rw [hlanded]
      cases cb with
      | udp src dst data =>
          cases data with
          | none => exact (List.append_nil _).symm
          | some data => cases hcb
      | accept => exact (List.append_nil _).symm
      | poll => exact (List.append_nil _).symm
      | _ => cases hcb
  | accept _ _ =>
      cases hevent : cfg.event <;>
        simp [Sys.landed, hloop, Event.queuedOn, LoopPc.pushing, handed]
  | @assertion a data err herr =>
      have hnone : handed cfg p s (.callback (.recv a (some data) err) o) = none := by
        cases err with
        | ok => exact absurd rfl herr
        | _ => rfl
      simp [Sys.landed, hloop, LoopPc.pushing, hnone]
  | @recvClosed a e q x es data ha harg hq hes hconn herr =>
      have hnone : handed cfg p s (.callback (.recv a (some data) .ok) o) = none := by
        refine if_neg ?_
        rintro ⟨_, hentry, hopen⟩
        rw [entry_eq ha harg hq] at hentry
        cases hentry
        rw [herr] at hopen
        cases hopen
      simp [Sys.landed, Event.queuedOn, LoopPc.pushing, hnone]
  | recvEmpty _ _ _ _ _ _ =>
      simp [Sys.landed, hloop, Event.queuedOn, LoopPc.pushing, handed]
  | @recv a e q x es data ha harg hq hes hconn herr hdata =>
      have hhanded : handed cfg p s (.callback (.recv a (some data) .ok) o) =
          if q = p then some data else none := by
        simp only [handed, entry_eq ha harg hq, hdata, ne_eq, not_false_eq_true, true_and,
          Option.some.injEq]
        refine if_congr ?_ rfl rfl
        constructor
        · exact fun h => h.1
        · rintro rfl
          exact ⟨rfl, herr⟩
      simp only [Sys.landed, select_snoc, Event.queuedOn, LoopPc.pushing, hhanded]
      split <;> simp
  | udpEmpty => simp [Sys.landed, hloop, LoopPc.pushing, handed]
  | @udpKnown src dst q data hq hdata =>
      have hhanded : handed cfg p s (.callback (.udp src dst (some data)) o) =
          if q = p then some data else none := by
        simp only [handed, Sys.Finds, hq, hdata, ne_eq, not_false_eq_true, true_and,
          Option.some.injEq, reduceCtorEq, false_and, or_false]
      simp only [Sys.landed, LoopPc.pushing, hhanded]
      split <;> simp
  | @udpNew src dst data hq hdata =>
      have hhanded : handed cfg p s (.callback (.udp src dst (some data)) o) =
          if s.nextPcb = p then some data else none := by
        simp only [handed, Sys.Finds, hq, hdata, ne_eq, not_false_eq_true, true_and,
          reduceCtorEq, false_or, eq_comm]
      simp only [Sys.landed, LoopPc.pushing, hhanded]
      by_cases hp : s.nextPcb = p
      · cases hevent : cfg.event <;> simp [Event.queuedOn, hp]
      · cases hevent : cfg.event <;> simp [Event.queuedOn, hp]
  | _ => simp [Sys.landed, Event.queuedOn, LoopPc.pushing, handed]

/-- The chunks landed on `p` grow by what the handlers take. -/
theorem Step.landed (h : Step cfg s a t) :
    t.landed p = s.landed p ++ (handed cfg p s a).toList := by
  have same : ∀ {l : List Bytes}, l = s.landed p → l = s.landed p ++ (none : Option Bytes).toList :=
    fun h => h.trans (List.append_nil _).symm
  by_cases ha : a.ofGoroutine = true
  · have hnone : handed cfg p s a = none := by
      cases a <;> first | rfl | cases ha
    rw [hnone]
    exact same (h.loopKept ha).landed
  cases h with
  | frame _ => simp [Sys.landed, Event.queuedOn, handed]
  | takeRecved hloop _ => simp [Sys.landed, hloop, LoopPc.pushing, handed]
  | takeClose _ _ _ => simp [Sys.landed, Event.queuedOn, handed]
  | takeCloseUdp _ _ _ => simp [Sys.landed, Event.queuedOn, handed]
  | takeSend hloop _ => simp [Sys.landed, hloop, LoopPc.pushing, handed]
  | takeInput hloop _ => simp [Sys.landed, hloop, LoopPc.pushing, handed]
  | loop hpc h => exact same (h.landed hpc)
  | callback hloop h => exact h.landed hloop
  | release _ _ _ => exact same rfl
  | _ => exact absurd rfl ha

/-- A step that ends the process leaves the handler where it is. -/
theorem Step.pushing_of_panic {why : Panic} (h : Step cfg s a t) (hrunning : s.panic = none)
    (hpanic : t.panic = some why) : t.loop.pushing p = s.loop.pushing p := by
  by_cases ha : a.ofGoroutine = true
  · rw [(h.loopKept ha).loop]
  cases h with
  | loop hpc h =>
      cases h with
      | sendEmpty _ => rfl
      | udpSendEmpty _ => rfl
      | pushClosed _ => rfl
      | doneClosed _ => rfl
      | close h =>
          rw [hpc]
          rfl
      | _ => cases hrunning.symm.trans hpanic
  | callback _ h => cases h <;> first | rfl | cases hrunning.symm.trans hpanic
  | _ => first | cases hrunning.symm.trans hpanic | exact absurd rfl ha

end LwipCs
