import LwipCs.Bridge.Steps

/-!
# What ends the process

One constructor for each place that panics, with what the code finds there.
-/

namespace LwipCs

open Interleave

/-- The action goes on from this place of `PCB.close`. -/
def Sys.Closes (s : Sys) (a : Act) (p : PcbId) (pc : ClosePc) : Prop :=
  (∃ t, a = .go t ∧ s.threads t = .close p pc) ∨
    ∃ o b e k, a = .loop o ∧ s.loop = .close p pc b e k

/-- The action panics in this state. -/
inductive Fails (s : Sys) : Act → Panic → Prop
  | intercepted {t : Tid} {p : PcbId} {len : Nat} (hth : s.threads t = .read p len .inter)
      (hinter : (s.pcbs p).recvInter = true) : Fails s (.go t) .intercepted
  | tooSmall {t : Tid} {p : PcbId} {len : Nat} {r : RecvChan} {ch : Chan Bytes} {data : Bytes}
      (hth : s.threads t = .read p len (.recv r))
      (hrecv : (s.chans r).recv = .done (some data, ch)) (hlen : len < data.length) :
      Fails s (.go t) .bufferTooSmall
  | twice {t : Tid} {p : PcbId} {c : Nat} (hth : s.threads t = .intercept p c .test)
      (hinter : (s.pcbs p).recvInter = true) : Fails s (.go t) .intercepted
  | closedOld {t : Tid} {p : PcbId} {c : Nat} (hth : s.threads t = .intercept p c .closeOld)
      (hclosed : (s.chans (s.pcbs p).recvQueued).closed = true) :
      Fails s (.go t) .closeOfClosed
  | recvTwice {a : Act} {p : PcbId} (hpos : s.Closes a p .closeRecv)
      (hinter : (s.pcbs p).recvInter = false)
      (hclosed : (s.chans (s.pcbs p).recvQueued).closed = true) : Fails s a .closeOfClosed
  | waitTwice {a : Act} {p : PcbId} (hpos : s.Closes a p .closeWait)
      (hclosed : (s.pcbs p).sendWait.closed = true) : Fails s a .closeOfClosed
  | sendEmpty {o : Outcomes} {entry : SendEntry}
      (hloop : s.loop = .send entry ∨ s.loop = .udpSend entry)
      (hdata : (s.bufs entry.data).data = []) : Fails s (.loop o) .indexOutOfRange
  | pushClosed {o : Outcomes} {p : PcbId} {data : Bytes} {ctx : PushCtx} {r : RecvChan}
      (hloop : s.loop = .push p data ctx (some r)) (hclosed : (s.chans r).closed = true) :
      Fails s (.loop o) .sendOnClosed
  | doneClosed {o : Outcomes} {p : PcbId} {a e : Ptr} {k : ConnId}
      (hloop : s.loop = .done p a e k) (hclosed : (s.pcbs p).sendWait.closed = true) :
      Fails s (.loop o) .sendOnClosed
  | assertion {a : Ptr} {data : Bytes} {err : ErrT} {o : Outcomes} (herr : err ≠ .ok) :
      Fails s (.callback (.recv a (some data) err) o) .assertion
  | recvEmpty {a : Ptr} {o : Outcomes} :
      Fails s (.callback (.recv a (some []) .ok) o) .indexOutOfRange
  | udpEmpty {src dst : Endpoint} {o : Outcomes} :
      Fails s (.callback (.udp src dst (some [])) o) .indexOutOfRange

variable {cfg : Config} {s t : Sys} {o : Outcomes} {a : Act} {why : Panic}

theorem step_running {a : Act} (h : step cfg s a = some t) : s.panic = none := by
  cases hpanic : s.panic with
  | none => rfl
  | some why =>
      simp [step, hpanic] at h

theorem ReadStep.fails {th : Tid} {p : PcbId} {len : Nat} {pc : ReadPc}
    (hth : s.threads th = .read p len pc) (h : ReadStep s th p len pc t)
    (hrunning : s.panic = none) (hpanic : t.panic = some why) : Fails s (.go th) why := by
  cases h with
  | intercepted hinter =>
      cases hpanic
      exact .intercepted hth hinter
  | tooSmall hrecv hlen =>
      cases hpanic
      exact .tooSmall hth hrecv hlen
  | _ => cases hrunning.symm.trans hpanic

theorem InterceptStep.fails {th : Tid} {p : PcbId} {c : Nat} {pc : InterPc}
    (hth : s.threads th = .intercept p c pc) (h : InterceptStep s th p c pc t)
    (hrunning : s.panic = none) (hpanic : t.panic = some why) : Fails s (.go th) why := by
  cases h with
  | twice hinter =>
      cases hpanic
      exact .twice hth hinter
  | closedOld hclosed =>
      cases hpanic
      exact .closedOld hth hclosed
  | _ => cases hrunning.symm.trans hpanic

theorem CloseStep.fails {who : Actor} {p : PcbId} {pc : ClosePc} {next : Option ClosePc}
    (h : CloseStep s who p pc t next) (hpos : s.Closes a p pc) (hrunning : s.panic = none)
    (hpanic : t.panic = some why) : Fails s a why := by
  cases h with
  | recvTwice hinter hclosed =>
      cases hpanic
      exact .recvTwice hpos hinter hclosed
  | waitTwice _ hclosed =>
      cases hpanic
      exact .waitTwice hpos hclosed
  | _ => cases hrunning.symm.trans hpanic

theorem LoopStep.fails {pc : LoopPc} (hpc : s.loop = pc) (h : LoopStep cfg s o pc t)
    (hrunning : s.panic = none) (hpanic : t.panic = some why) : Fails s (.loop o) why := by
  cases h with
  | sendEmpty hdata =>
      cases hpanic
      exact .sendEmpty (Or.inl hpc) hdata
  | udpSendEmpty hdata =>
      cases hpanic
      exact .sendEmpty (Or.inr hpc) hdata
  | pushClosed hclosed =>
      cases hpanic
      exact .pushClosed hpc hclosed
  | doneClosed hclosed =>
      cases hpanic
      exact .doneClosed hpc hclosed
  | close h => exact h.fails (Or.inr ⟨o, _, _, _, rfl, hpc⟩) hrunning hpanic
  | _ => cases hrunning.symm.trans hpanic

theorem CallbackStep.fails {cb : Callback} (h : CallbackStep cfg s o cb t)
    (hrunning : s.panic = none) (hpanic : t.panic = some why) : Fails s (.callback cb o) why := by
  cases h with
  | assertion herr =>
      cases hpanic
      exact .assertion herr
  | recvEmpty _ _ _ _ _ _ =>
      cases hpanic
      exact .recvEmpty
  | udpEmpty =>
      cases hpanic
      exact .udpEmpty
  | _ => cases hrunning.symm.trans hpanic

/-- The process ends at the listed places only. -/
theorem Step.fails (h : Step cfg s a t) (hrunning : s.panic = none) (hpanic : t.panic = some why) :
    Fails s a why := by
  cases h with
  | read hth h => exact h.fails hth hrunning hpanic
  | write _ h => cases h <;> cases hrunning.symm.trans hpanic
  | close hth h => exact h.fails (Or.inl ⟨_, rfl, hth⟩) hrunning hpanic
  | intercept hth h => exact h.fails hth hrunning hpanic
  | loop hpc h => exact h.fails hpc hrunning hpanic
  | callback _ h => exact h.fails hrunning hpanic
  | _ => cases hrunning.symm.trans hpanic

/-! ### What sets `err` -/

/-- `close` sets `err` of its own PCB. -/
theorem CloseStep.err_of {who : Actor} {p q : PcbId} {pc : ClosePc} {next : Option ClosePc}
    (h : CloseStep s who q pc t next) (herr : (t.pcbs p).err = true) :
    (s.pcbs p).err = true ∨ (q = p ∧ pc = .setErr) := by
  have kept : ∀ {x : PCB}, x.err = (s.pcbs q).err →
      (Function.update s.pcbs q x p).err = true → (s.pcbs p).err = true :=
    fun hx ht => (update_field PCB.err hx p).symm.trans ht
  cases h with
  | lock _ => exact Or.inl (kept (by rfl) herr)
  | setErr =>
      by_cases hq : q = p
      · exact Or.inr ⟨hq, rfl⟩
      · exact Or.inl ((congrArg PCB.err (Function.update_of_ne (Ne.symm hq) ..)).symm.trans herr)
  | closeWait _ _ => exact Or.inl (kept (by rfl) herr)
  | unlock => exact Or.inl (kept (by rfl) herr)
  | _ => exact Or.inl herr

/-- Only `close` sets `err`. -/
theorem Step.err_of {p : PcbId} (h : Step cfg s a t) (herr : (t.pcbs p).err = true) :
    (s.pcbs p).err = true ∨ s.Closes a p .setErr := by
  have kept : ∀ {q : PcbId} {x : PCB}, x.err = (s.pcbs q).err →
      (Function.update s.pcbs q x p).err = true → (s.pcbs p).err = true :=
    fun hx ht => (update_field PCB.err hx p).symm.trans ht
  have made : ∀ {flow : Flow},
      (Function.update s.pcbs s.nextPcb (newPCB s.nextPcb flow) p).err = true →
        (s.pcbs p).err = true := by
    intro flow ht
    by_cases hp : p = s.nextPcb
    · rw [hp, Function.update_self] at ht
      cases ht
    · rwa [Function.update_of_ne hp] at ht
  cases h with
  | read _ h => cases h <;> exact Or.inl herr
  | write _ h => cases h <;> first | exact Or.inl herr | exact Or.inl (kept (by rfl) herr)
  | close hth h =>
      rcases h.err_of herr with hset | ⟨rfl, rfl⟩
      · exact Or.inl hset
      · exact Or.inr (Or.inl ⟨_, rfl, hth⟩)
  | closed _ => exact Or.inl (kept (by rfl) herr)
  | intercept _ h => cases h <;> first | exact Or.inl herr | exact Or.inl (kept (by rfl) herr)
  | @loop o pc _ hpc h =>
      cases h with
      | close h =>
          rcases h.err_of herr with hset | ⟨rfl, rfl⟩
          · exact Or.inl hset
          · exact Or.inr (Or.inr ⟨o, _, _, _, rfl, hpc⟩)
      | _ => first | exact Or.inl herr | exact Or.inl (kept (by rfl) herr)
  | callback _ h =>
      cases h with
      | accept _ _ => exact Or.inl (made herr)
      | udpNew _ _ => exact Or.inl (made herr)
      | _ => first | exact Or.inl herr | exact Or.inl (kept (by rfl) herr)
  | _ => exact Or.inl herr

end LwipCs
