import LwipCs.Bridge.Frames
import LwipCs.Bridge.Kept
import LwipCs.Bridge.Wakeup

/-!
# What the process waits for

Where neither a goroutine nor the loop can go on, the loop is at its select with nothing
queued, or it fills a channel that nobody reads, or it waits in `go_tcp_close_h` for a lock.
A lock that anyone waits for is held by a `Write` that waits in turn. Calls, frames, the
callbacks of lwIP and the owners of intercepting channels are not asked to go on.
-/

namespace LwipCs

open Interleave

/-- The steps of the process itself. -/
def Act.own : Act → Bool
  | .go _ | .take _ _ | .loop _ => true
  | _ => false

/-- Neither a goroutine nor the loop can go on. -/
def Sys.Still (cfg : Config) (s : Sys) : Prop := ∀ a, a.own = true → step cfg s a = none

/-- The queues the goroutines share with the loop are open. -/
structure Sys.QueuesOpen (s : Sys) : Prop where
  recved : s.recvedQueue.closed = false ∧ s.recvedQueue.cap = queueCap
  send : s.sendQueue.closed = false ∧ s.sendQueue.cap = queueCap
  close : s.closeQueue.closed = false ∧ s.closeQueue.cap = queueCap
  input : s.inputQueue.closed = false ∧ s.inputQueue.cap = queueCap

/-- What a goroutine waits for. -/
inductive Sys.Waiting (s : Sys) (t : Tid) : Prop
  /-- data, on an empty channel -/
  | chunk {p : PcbId} {len : Nat} {r : RecvChan} (hth : s.threads t = .read p len (.recv r))
      (hblocked : (s.chans r).recv = .blocked)
  /-- room in one of the queues of the loop -/
  | credit {p : PcbId} {len : Nat} {data : Bytes} (hth : s.threads t = .read p len (.credit data))
      (hfull : s.recvedQueue.Full)
  | entry {p : PcbId} {w : WriteId} {pc : WritePc} (hth : s.threads t = .write p w pc)
      (hpc : pc = .enqueue ∨ pc = .post) (hfull : s.sendQueue.Full)
  | close {p : PcbId} (hth : s.threads t = .closePost p) (hfull : s.closeQueue.Full)
  /-- its token -/
  | token {p : PcbId} {w : WriteId} (hth : s.threads t = .write p w .wait)
      (hblocked : (s.pcbs p).sendWait.recv = .blocked)
  | lock {p : PcbId} (hth : (∃ w, s.threads t = .write p w .lock) ∨ s.threads t = .close p .lock ∨
      ∃ c, s.threads t = .intercept p c .lock) (hheld : (s.pcbs p).lck ≠ none)

/-- The `Write` that holds a lock waits: for room in `sendQueue`, or for its token. -/
inductive Sys.HeldBack (s : Sys) (p : PcbId) (t : Tid) (w : WriteId) : Prop
  | entry (hth : s.threads t = .write p w .enqueue) (hfull : s.sendQueue.Full)
  | token (hth : s.threads t = .write p w .wait) (hblocked : (s.pcbs p).sendWait.recv = .blocked)

/-- The capacity of a channel that can stand in `recvQueued`. -/
def chanCap (cfg : Config) : RecvChan → Nat
  | .own _ => queueCap
  | .user c => cfg.userCap c

theorem chanCap_pos (cfg : Config) (r : RecvChan) : 0 < chanCap cfg r := by
  cases r with
  | own p => exact Nat.zero_lt_succ _
  | user c => exact cfg.userCap_pos c

/-- Where the loop of a process that does not move stands. -/
inductive Sys.LoopRests (s : Sys) : Prop
  /-- at the select, with nothing queued -/
  | select (hloop : s.loop = .select) (hrecved : s.recvedQueue.buf = [])
      (hclose : s.closeQueue.buf = []) (hsend : s.sendQueue.buf = [])
      (hinput : s.inputQueue.buf = [])
  /-- it fills a channel that no goroutine receives from -/
  | push {p : PcbId} {data : Bytes} {ctx : PushCtx} {r : RecvChan}
      (hloop : s.loop = .push p data ctx (some r)) (hfull : (s.chans r).Full)
      (hunread : ∀ t q len, s.threads t ≠ .read q len (.recv r))
  /-- at the lock in `go_tcp_close_h` -/
  | close {p : PcbId} {a e : Ptr} {k : ConnId} (hloop : s.loop = .close p .lock a e k)
      (hheld : (s.pcbs p).lck ≠ none)

/-- What a process that does not move waits for. -/
structure Sys.Rests (s : Sys) : Prop where
  threads : ∀ t, s.threads t = .idle ∨ s.Waiting t
  locks : ∀ p who, (s.pcbs p).lck = some who → ∃ t w, who = .goroutine t ∧ s.HeldBack p t w
  loop : s.LoopRests
  /-- at the select each `Write` that waits for its token was counted by `Send` -/
  counted : s.loop = .select → ∀ t p w, s.threads t = .write p w .wait →
    (s.pcbs p).err = false ∧ (s.pcbs p).sendCount = 1

variable {cfg : Config} {s t : Sys} {a : Act} {o : Outcomes}

/-! ### Queues -/

theorem open_of_send {α : Type} {c c' : Chan α} {x : α} {n : Nat}
    (h : c.closed = false ∧ c.cap = n) (hsend : c.send x = .done c') :
    c'.closed = false ∧ c'.cap = n := by
  obtain ⟨_, _, _, hcap, hopen⟩ := Chan.send_done hsend
  exact ⟨hopen, hcap.trans h.2⟩

theorem open_of_recv {α : Type} {c c' : Chan α} {x : α} {n : Nat}
    (h : c.closed = false ∧ c.cap = n) (hrecv : c.recv = .done (some x, c')) :
    c'.closed = false ∧ c'.cap = n := by
  obtain ⟨_, hcap, hclosed⟩ := Chan.recv_some hrecv
  exact ⟨hclosed.trans h.1, hcap.trans h.2⟩

theorem Step.queuesOpen (h : Step cfg s a t) (hs : s.QueuesOpen) : t.QueuesOpen := by
  obtain ⟨hrecved, hsends, hcloses, hinput⟩ := hs
  cases h with
  | read _ h =>
      cases h with
      | credit hsend => exact ⟨open_of_send hrecved hsend, hsends, hcloses, hinput⟩
      | _ => exact ⟨hrecved, hsends, hcloses, hinput⟩
  | write _ h =>
      cases h with
      | enqueue hsend => exact ⟨hrecved, open_of_send hsends hsend, hcloses, hinput⟩
      | post hsend => exact ⟨hrecved, open_of_send hsends hsend, hcloses, hinput⟩
      | _ => exact ⟨hrecved, hsends, hcloses, hinput⟩
  | close _ h => cases h <;> exact ⟨hrecved, hsends, hcloses, hinput⟩
  | closePost _ hsend => exact ⟨hrecved, hsends, open_of_send hcloses hsend, hinput⟩
  | intercept _ h => cases h <;> exact ⟨hrecved, hsends, hcloses, hinput⟩
  | frame hsend => exact ⟨hrecved, hsends, hcloses, open_of_send hinput hsend⟩
  | takeRecved _ hrecv => exact ⟨open_of_recv hrecved hrecv, hsends, hcloses, hinput⟩
  | takeClose _ hrecv _ => exact ⟨hrecved, hsends, open_of_recv hcloses hrecv, hinput⟩
  | takeCloseUdp _ hrecv _ => exact ⟨hrecved, hsends, open_of_recv hcloses hrecv, hinput⟩
  | takeSend _ hrecv => exact ⟨hrecved, open_of_recv hsends hrecv, hcloses, hinput⟩
  | takeInput _ hrecv => exact ⟨hrecved, hsends, hcloses, open_of_recv hinput hrecv⟩
  | loop _ h =>
      cases h with
      | close h => cases h <;> exact ⟨hrecved, hsends, hcloses, hinput⟩
      | _ => exact ⟨hrecved, hsends, hcloses, hinput⟩
  | callback _ h => cases h <;> exact ⟨hrecved, hsends, hcloses, hinput⟩
  | _ => exact ⟨hrecved, hsends, hcloses, hinput⟩

theorem reachable_queuesOpen (h : (bridge cfg).Reachable s) : s.QueuesOpen := by
  refine h.invariant_of reachable_inOrder ?_ ?_
  · exact ⟨⟨rfl, rfl⟩, ⟨rfl, rfl⟩, ⟨rfl, rfl⟩, ⟨rfl, rfl⟩⟩
  · intro s a t horder _ hs hstep
    exact (step_cases horder hstep).queuesOpen hs

/-- Every `chan []byte` has the capacity it was made with. -/
def Sys.CapsKept (cfg : Config) (s : Sys) : Prop := ∀ r, (s.chans r).cap = chanCap cfg r

theorem Sys.CapsKept.setChan (h : s.CapsKept cfg) {r : RecvChan} {ch : Chan Bytes}
    (hcap : ch.cap = (s.chans r).cap) (q : RecvChan) :
    (Function.update s.chans r ch q).cap = chanCap cfg q :=
  (update_field Chan.cap hcap q).trans (h q)

theorem cap_of_send {α : Type} {c c' : Chan α} {x : α} (h : c.send x = .done c') :
    c'.cap = c.cap := (Chan.send_done h).2.2.2.1

theorem cap_of_recv {α : Type} {c c' : Chan α} {x : Option α} (h : c.recv = .done (x, c')) :
    c'.cap = c.cap := by
  obtain ⟨_, _, _, hcap, _⟩ | ⟨_, rfl, _⟩ := Chan.recv_done h
  · exact hcap
  · rfl

theorem CloseStep.capsKept {who : Actor} {p : PcbId} {pc : ClosePc} {next : Option ClosePc}
    (h : CloseStep s who p pc t next) (hs : s.CapsKept cfg) : t.CapsKept cfg := by
  cases h with
  | closeRecv _ hclose => exact hs.setChan (Chan.close_done hclose).2.2.1
  | _ => exact hs

theorem Step.capsKept (h : Step cfg s a t) (hs : s.CapsKept cfg) : t.CapsKept cfg := by
  cases h with
  | read _ h =>
      cases h with
      | nothing hrecv _ => exact hs.setChan (cap_of_recv hrecv)
      | tooSmall hrecv _ => exact hs.setChan (cap_of_recv hrecv)
      | chunk hrecv _ _ _ => exact hs.setChan (cap_of_recv hrecv)
      | datagram hrecv _ _ _ => exact hs.setChan (cap_of_recv hrecv)
      | _ => exact hs
  | write _ h => cases h <;> exact hs
  | close _ h =>
      have hclosing := h.capsKept hs
      exact hclosing
  | intercept _ h =>
      cases h with
      | closeOld hclose => exact hs.setChan (Chan.close_done hclose).2.2.1
      | _ => exact hs
  | userRecv hrecv => exact hs.setChan (cap_of_recv hrecv)
  | loop _ h =>
      cases h with
      | push hsend => exact hs.setChan (cap_of_send hsend)
      | pushUdp hsend => exact hs.setChan (cap_of_send hsend)
      | close h =>
          have hclosing := h.capsKept hs
          exact hclosing
      | _ => exact hs
  | callback _ h => cases h <;> exact hs
  | _ => exact hs

theorem reachable_capsKept (h : (bridge cfg).Reachable s) : s.CapsKept cfg := by
  refine h.invariant_of reachable_inOrder ?_ ?_
  · rintro (p | c) <;> rfl
  · intro s a t horder _ hs hstep
    exact (step_cases horder hstep).capsKept hs

/-- An open queue that takes nothing is full. -/
theorem full_of_open {α : Type} {c : Chan α} {x : α} {n : Nat} (h : c.closed = false ∧ c.cap = n)
    (hsend : ∀ c', c.send x ≠ .done c') : c.Full := by
  cases hout : c.send x with
  | blocked => exact Chan.send_blocked_iff.mp hout
  | panics =>
      rw [Chan.send_panics_iff, h.1] at hout
      cases hout
  | done c' => exact absurd hout (hsend c')

/-! ### What blocks a step -/

theorem readStep_none {p : PcbId} {len : Nat} {pc : ReadPc} {th : Tid} (hs : s.QueuesOpen)
    (h : s.readStep th p len pc = none) :
    (∃ r, pc = .recv r ∧ (s.chans r).recv = .blocked) ∨
      ∃ data, pc = .credit data ∧ s.recvedQueue.Full := by
  cases pc with
  | recv r =>
      simp only [Sys.readStep] at h
      cases hrecv : (s.chans r).recv with
      | blocked => exact Or.inl ⟨r, rfl, hrecv⟩
      | panics => exact absurd hrecv Chan.recv_ne_panics
      | done x =>
          obtain ⟨chunk, ch⟩ := x
          rw [hrecv] at h
          simp only at h
          split at h
          · cases h
          · cases h
          · split at h
            · cases h
            · split at h <;> cases h
  | credit data =>
      refine Or.inr ⟨data, rfl, full_of_open hs.recved (x := ⟨p, data.length⟩) fun c' hsend => ?_⟩
      simp only [Sys.readStep, hsend] at h
      cases h
  | _ =>
      simp only [Sys.readStep] at h
      first | (split at h <;> cases h) | cases h

theorem writeStep_none {p : PcbId} {w : WriteId} {pc : WritePc} {th : Tid} (hs : s.QueuesOpen)
    (h : s.writeStep th p w pc = none) :
    pc = .lock ∧ (s.pcbs p).lck ≠ none ∨ (pc = .enqueue ∨ pc = .post) ∧ s.sendQueue.Full ∨
      pc = .wait ∧ (s.pcbs p).sendWait.recv = .blocked := by
  have full : (∀ q, s.sendQueue.send ⟨p, w⟩ ≠ .done q) → s.sendQueue.Full := full_of_open hs.send
  cases pc with
  | test =>
      simp only [Sys.writeStep] at h
      split at h
      · cases h
      · split at h
        · cases h
        · split at h <;> cases h
  | lock =>
      simp only [Sys.writeStep] at h
      split at h
      · cases h
      · rename_i hheld
        exact Or.inl ⟨rfl, hheld⟩
  | enqueue =>
      refine Or.inr (Or.inl ⟨Or.inl rfl, full fun q hsend => ?_⟩)
      simp only [Sys.writeStep, hsend] at h
      cases h
  | post =>
      refine Or.inr (Or.inl ⟨Or.inr rfl, full fun q hsend => ?_⟩)
      simp only [Sys.writeStep, hsend] at h
      cases h
  | wait =>
      refine Or.inr (Or.inr ⟨rfl, ?_⟩)
      simp only [Sys.writeStep] at h
      cases hrecv : (s.pcbs p).sendWait.recv with
      | blocked => rfl
      | panics => exact absurd hrecv Chan.recv_ne_panics
      | done x =>
          rw [hrecv] at h
          cases h
  | _ => cases h

theorem closeStep_none {who : Actor} {p : PcbId} {pc : ClosePc} (h : s.closeStep who p pc = none) :
    pc = .lock ∧ (s.pcbs p).lck ≠ none := by
  cases pc with
  | lock =>
      simp only [Sys.closeStep] at h
      split at h
      · cases h
      · rename_i hheld
        exact ⟨rfl, hheld⟩
  | test =>
      simp only [Sys.closeStep] at h
      split at h <;> cases h
  | closeRecv =>
      simp only [Sys.closeStep] at h
      split at h
      · cases h
      · split at h <;> cases h
  | closeWait =>
      simp only [Sys.closeStep] at h
      split at h
      · split at h <;> cases h
      · cases h
  | _ => cases h

theorem interceptStep_none {p : PcbId} {c : Nat} {pc : InterPc} {th : Tid}
    (h : s.interceptStep th p c pc = none) : pc = .lock ∧ (s.pcbs p).lck ≠ none := by
  cases pc with
  | lock =>
      simp only [Sys.interceptStep] at h
      split at h
      · cases h
      · rename_i hheld
        exact ⟨rfl, hheld⟩
  | test =>
      simp only [Sys.interceptStep] at h
      split at h <;> cases h
  | closeOld =>
      simp only [Sys.interceptStep] at h
      split at h <;> cases h
  | _ => cases h

/-- A goroutine that cannot go on is between calls, or waits. -/
theorem goStep_none {th : Tid} (hs : s.QueuesOpen) (h : s.goStep th = none) :
    s.threads th = .idle ∨ s.Waiting th := by
  unfold Sys.goStep at h
  split at h <;> rename_i hth
  · exact Or.inl hth
  · obtain ⟨r, rfl, hblocked⟩ | ⟨data, rfl, hfull⟩ := readStep_none hs h
    · exact Or.inr (.chunk hth hblocked)
    · exact Or.inr (.credit hth hfull)
  · obtain ⟨rfl, hheld⟩ | ⟨hpc, hfull⟩ | ⟨rfl, hblocked⟩ := writeStep_none hs h
    · exact Or.inr (.lock (Or.inl ⟨_, hth⟩) hheld)
    · exact Or.inr (.entry hth hpc hfull)
    · exact Or.inr (.token hth hblocked)
  · obtain ⟨rfl, hheld⟩ := closeStep_none (Option.map_eq_none_iff.mp h)
    exact Or.inr (.lock (Or.inr (Or.inl hth)) hheld)
  · rename_i p
    refine Or.inr (.close hth (full_of_open hs.close (x := p) fun c' hsend => ?_))
    rw [hsend] at h
    cases h
  · obtain ⟨rfl, hheld⟩ := interceptStep_none h
    exact Or.inr (.lock (Or.inr (Or.inr ⟨_, hth⟩)) hheld)

/-- The loop outside its select is stopped by a channel or a lock alone. -/
theorem loopStep_none (h : s.loopStep cfg o = none) :
    s.loop = .select ∨
      (∃ frame, s.loop = .post frame ∧ ∀ q, s.inputQueue2.send frame ≠ .done q) ∨
      (∃ p data ctx r, s.loop = .push p data ctx (some r) ∧ (s.chans r).Full) ∨
      (∃ p a e k, s.loop = .done p a e k ∧ ∀ ch, (s.pcbs p).sendWait.send () ≠ .done ch) ∨
      ∃ p a e k, s.loop = .close p .lock a e k ∧ (s.pcbs p).lck ≠ none := by
  unfold Sys.loopStep at h
  split at h <;> rename_i hloop
  · exact Or.inl hloop
  · split at h <;> cases h
  · cases h
  · cases h
  · refine Or.inr (Or.inl ⟨_, hloop, fun q hsend => ?_⟩)
    rw [hsend] at h
    cases h
  · cases h
  · cases h
  · cases h
  · split at h
    · rename_i hblocked
      exact Or.inr (Or.inr (Or.inl ⟨_, _, _, _, hloop, Chan.send_blocked_iff.mp hblocked⟩))
    · cases h
    · cases h
  · refine Or.inr (Or.inr (Or.inr (Or.inl ⟨_, _, _, _, hloop, fun ch hsend => ?_⟩)))
    rw [hsend] at h
    cases h
  · obtain ⟨rfl, hheld⟩ := closeStep_none (Option.map_eq_none_iff.mp h)
    exact Or.inr (Or.inr (Or.inr (Or.inr ⟨_, _, _, _, hloop, hheld⟩)))

/-- A select with no case that is ready finds nothing queued. -/
theorem take_none (h : ∀ q, s.take cfg o q = none) : s.recvedQueue.buf = [] ∧
    s.closeQueue.buf = [] ∧ s.sendQueue.buf = [] ∧ s.inputQueue.buf = [] := by
  refine ⟨Chan.buf_nil_of_recv fun r q hrecv => ?_, Chan.buf_nil_of_recv fun c q hrecv => ?_,
    Chan.buf_nil_of_recv fun e q hrecv => ?_, Chan.buf_nil_of_recv fun i q hrecv => ?_⟩
  · have hnone := h .recved
    simp only [Sys.take, hrecv] at hnone
    cases hnone
  · have hnone := h .close
    simp only [Sys.take, hrecv] at hnone
    split at hnone <;> cases hnone
  · have hnone := h .send
    simp only [Sys.take, hrecv] at hnone
    cases hnone
  · have hnone := h .input
    simp only [Sys.take, hrecv] at hnone
    cases hnone

/-! ### The process at rest -/

variable {p : PcbId} {th : Tid}

/-- A goroutine that waits with a lock in its hands is a `Write`. -/
theorem Sys.Waiting.holder (h : s.Waiting th) (hholds : (s.threads th).holds = some p) :
    ∃ w, s.HeldBack p th w := by
  cases h with
  | chunk hth _ =>
      rw [hth] at hholds
      cases hholds
  | credit hth _ =>
      rw [hth] at hholds
      cases hholds
  | entry hth hpc hfull =>
      rw [hth] at hholds
      obtain rfl | rfl := hpc
      · cases hholds
        exact ⟨_, .entry hth hfull⟩
      · cases hholds
  | close hth _ =>
      rw [hth] at hholds
      cases hholds
  | token hth hblocked =>
      rw [hth] at hholds
      cases hholds
      exact ⟨_, .token hth hblocked⟩
  | lock hth _ =>
      obtain ⟨w, hth⟩ | hth | ⟨c, hth⟩ := hth <;>
        · rw [hth] at hholds
          cases hholds

/-- At the select with nothing queued, a `Write` that waits for its token was counted. -/
theorem counted_of_waiting (hready : s.WakerReady) (hloop : s.loop = .select)
    (hempty : s.sendQueue.buf = []) {w : WriteId} (hth : s.threads th = .write p w .wait)
    (hblocked : (s.pcbs p).sendWait.recv = .blocked) :
    (s.pcbs p).err = false ∧ (s.pcbs p).sendCount = 1 := by
  have hp : Thread.Ok s.nextPcb s.pcbs (.write p w .wait) := hth ▸ hready.order.known.threads th
  obtain ⟨htokens, hunclosed⟩ := Chan.recv_blocked_iff.mp hblocked
  have hopen : (s.pcbs p).err = false := by
    by_contra herr
    rw [hready.shut.closed hready.locked hp (by simpa using herr) hth] at hunclosed
    cases hunclosed
  refine ⟨hopen, ?_⟩
  obtain ⟨hpending, _⟩ | ⟨_, hone⟩ :=
    (hready.shaken p hp).waiting hopen w ⟨th, by rw [hth]; rfl⟩
  · rw [hloop, hempty] at hpending
    cases hpending
  · rw [hloop] at hone
    simpa [PCB.live, htokens, LoopPc.grants] using hone

/-- A process that can do nothing by itself waits for the outside: or a `Write` holds a lock
that the loop wants, or nobody reads the channel that the loop fills. -/
theorem run_rests {tr : List (Sys × Act)} (hrun : (bridge cfg).Run tr s) (hlive : s.panic = none)
    (hstill : s.Still cfg) : s.Rests := by
  have hreach := hrun.reachable
  have hready := reachable_wakerReady hreach
  have hqueues := reachable_queuesOpen hreach
  have own : ∀ {a}, a.own = true → step cfg s a = none := hstill _
  have hgo : ∀ u, s.goStep u = none := by
    intro u
    simpa [step, hlive] using own (a := .go u) rfl
  have hloop : ∀ o, s.loopStep cfg o = none := by
    intro o
    simpa [step, hlive] using own (a := .loop o) rfl
  have hthreads : ∀ u, s.threads u = .idle ∨ s.Waiting u := fun u => goStep_none hqueues (hgo u)
  have hstands := loopStep_none (hloop ⟨true, 0, [], false⟩)
  have hrests : s.LoopRests := by
    obtain hselect | ⟨frame, hpost, hroom⟩ | ⟨p, data, ctx, r, hpush, hfull⟩ |
      ⟨p, b, e, k, hdone, htoken⟩ | ⟨p, b, e, k, hclose, hheld⟩ := hstands
    · have htake : ∀ q, s.take cfg ⟨true, 0, [], false⟩ q = none := by
        intro q
        simpa [step, hlive, hselect] using own (a := .take q ⟨true, 0, [], false⟩) rfl
      obtain ⟨hrecved, hcloses, hsends, hinput⟩ := take_none htake
      exact .select hselect hrecved hcloses hsends hinput
    · obtain ⟨q, hsend⟩ := (run_handsOver hrun).room frame hpost
      exact absurd hsend (hroom q)
    · refine .push hpush hfull fun u q len hth => ?_
      obtain hidle | hwaiting := hthreads u
      · rw [hth] at hidle
        cases hidle
      · have hgo := hgo u
        rw [Sys.goStep, hth] at hgo
        obtain ⟨r', hpc, hblocked⟩ | ⟨data, hpc, _⟩ := readStep_none hqueues hgo
        · cases hpc
          have hlen := hfull.2
          rw [(Chan.recv_blocked_iff.mp hblocked).1, reachable_capsKept hreach r] at hlen
          exact absurd hlen (Nat.ne_of_lt (chanCap_pos cfg r))
        · cases hpc
    · have hp : Made s.nextPcb s.pcbs .tcp p := by
        have hok := hready.order.known.loop
        rwa [hdone] at hok
      obtain ⟨ch, hsend⟩ := (reachable_sendSafe hreach hp).done b e k hdone
      exact absurd hsend (htoken ch)
    · exact .close hclose hheld
  refine ⟨hthreads, ?_, hrests, ?_⟩
  · intro p who hlck
    have hholds := (hready.locked who p).mpr hlck
    cases who with
    | loop =>
        have hnone : s.loop.holds = none := by
          cases hrests with
          | select hloop _ _ _ _ => rw [hloop]; rfl
          | push hloop _ _ => rw [hloop]; rfl
          | close hloop _ => rw [hloop]; rfl
        rw [holdsBy, hnone] at hholds
        cases hholds
    | goroutine u =>
        obtain hidle | hwaiting := hthreads u
        · rw [holdsBy, hidle] at hholds
          cases hholds
        · obtain ⟨w, hback⟩ := hwaiting.holder hholds
          exact ⟨u, w, rfl, hback⟩
  · intro hselect u p w hth
    have hsends : s.sendQueue.buf = [] := by
      cases hrests with
      | select _ _ _ hsends _ => exact hsends
      | push hloop _ _ =>
          rw [hselect] at hloop
          cases hloop
      | close hloop _ =>
          rw [hselect] at hloop
          cases hloop
    have hgo := hgo u
    rw [Sys.goStep, hth] at hgo
    obtain ⟨hpc, _⟩ | ⟨hpc, _⟩ | ⟨_, hblocked⟩ := writeStep_none hqueues hgo
    · cases hpc
    · obtain hpc | hpc := hpc <;> cases hpc
    · exact counted_of_waiting hready hselect hsends hth hblocked

/-- Two goroutines are called: one writes a byte, one closes. -/
def Schedule.twoCalled (_ : Sys) : Act → Bool
  | .call t _ => t < 2
  | _ => true

/-- A `Write` waits for its acknowledgement, and `Close` for the `Write`. -/
theorem run_rests_write : ∃ tr s, (bridge Schedule.config).Run tr s ∧
    s.threads 0 = .write 0 0 .wait ∧ s.threads 1 = .close 0 .lock ∧
    s.Still Schedule.config ∧ s.Rests := by
  obtain ⟨tr, s, hrun, hmeets, htest⟩ := Machine.exists_run_of_exec (bridge Schedule.config)
    Schedule.twoCalled
    (Schedule.accept ++ [.loop Schedule.fine] ++ Schedule.write [7] ++
      [.take .send Schedule.fine, .loop Schedule.fine, .call 1 (.close 0)])
    (fun s => s.panic = none ∧ s.loop = .select ∧ s.threads 0 = .write 0 0 .wait ∧
      s.threads 1 = .close 0 .lock ∧ (s.pcbs 0).lck ≠ none ∧ (s.pcbs 0).sendWait.buf = [] ∧
      (s.pcbs 0).sendWait.closed = false ∧ s.recvedQueue.buf = [] ∧ s.closeQueue.buf = [] ∧
      s.sendQueue.buf = [] ∧ s.inputQueue.buf = [] ∧ s.recvedQueue.closed = false ∧
      s.closeQueue.closed = false ∧ s.sendQueue.closed = false ∧ s.inputQueue.closed = false)
    (by decide)
  obtain ⟨hlive, hloop, hwrite, hclose, hheld, htokens, hopen, hrecved, hcloses, hsends, hinput,
    hopen₁, hopen₂, hopen₃, hopen₄⟩ := of_decide_eq_true htest
  have blocked : ∀ {α : Type} {c : Chan α}, c.buf = [] → c.closed = false → c.recv = .blocked :=
    fun hbuf hopen => Chan.recv_blocked_iff.mpr ⟨hbuf, hopen⟩
  have hidle : ∀ t, s.threads (t + 2) = .idle := by
    refine fun t => run_uncalled hrun ?_
    rintro ⟨u, a⟩ hx m rfl
    have hlt : decide (t + 2 < 2) = true := hmeets _ hx
    exact absurd (of_decide_eq_true hlt) (Nat.not_lt.mpr (Nat.le_add_left 2 t))
  have hstill : s.Still Schedule.config := by
    have hrunning : ¬s.panic.isSome = true := by simp [hlive]
    intro a ha
    cases a with
    | go t =>
        show (if s.panic.isSome then none else s.goStep t) = none
        rw [if_neg hrunning, Sys.goStep]
        match t with
        | 0 => simp only [hwrite, Sys.writeStep, blocked htokens hopen]
        | 1 => simp only [hclose, Sys.closeStep, if_neg hheld, Option.map_none]
        | t + 2 => simp only [hidle t]
    | take q o =>
        show (if s.panic.isSome then none
          else if s.loop = .select then s.take _ o q else none) = none
        rw [if_neg hrunning, if_pos hloop]
        cases q with
        | recved => simp only [Sys.take, blocked hrecved hopen₁]
        | close => simp only [Sys.take, blocked hcloses hopen₂]
        | send => simp only [Sys.take, blocked hsends hopen₃]
        | input => simp only [Sys.take, blocked hinput hopen₄]
    | loop o =>
        show (if s.panic.isSome then none else s.loopStep _ o) = none
        rw [if_neg hrunning, Sys.loopStep, hloop]
    | _ => cases ha
  exact ⟨tr, s, hrun, hwrite, hclose, hstill, run_rests hrun hlive hstill⟩

end LwipCs
