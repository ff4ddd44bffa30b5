import LwipCs.Bridge.Landed
import LwipCs.Bridge.Panics
import LwipCs.Bridge.Switch
import Mathlib.Data.Finset.Card

/-!
# What `Intercept` keeps of the stream

The chunks that lwIP delivers to a PCB, against those that a `Read` returns before `Intercept` has
put its channel in the place, and those that the owner of the channel receives from it after.
Once `err` is set no further `Read` takes a chunk, so what is left in the channel made with the PCB
is for the calls of `Read` that have passed their tests.
-/

namespace LwipCs

open Interleave

/-- The chunk that lwIP delivers to `p` in the step, also if the handler does not take it. -/
def delivers (cfg : Config) (p : PcbId) (s : Sys) : Act → Option Bytes
  | .callback (.recv a (some data) _) _ => if s.entry a = some p then some data else none
  | .callback (.udp src _ (some data)) _ => if s.Finds cfg p src then some data else none
  | _ => none

/-- The chunk that a `Read` of `p` receives to return it, before the channel of `Intercept` is in
the place. -/
def readBefore (p : PcbId) (s : Sys) : Act → Option Bytes
  | .go t =>
      match s.threads t with
      | .read q len (.recv r) =>
          if q = p ∧ (s.pcbs p).recvQueued = .own p then
            (s.chans r).buf.head?.filter fun data => data.length ≤ len
          else none
      | _ => none
  | _ => none

/-- The chunk that the owner of `c` receives from it. -/
def receivedOn (c : Nat) (s : Sys) : Act → Option Bytes
  | .userRecv d => if d = c then (s.chans (.user c)).buf.head? else none
  | _ => none

/-- The step goes on in `Intercept` or `close` of `p`. -/
def Sys.Shuts (s : Sys) (a : Act) (p : PcbId) : Prop :=
  (∃ t c pc, a = .go t ∧ s.threads t = .intercept p c pc) ∨ ∃ pc, s.Closes a p pc

/-- A `Read` of `p` that has passed its tests and has loaded no channel but the one made with
`p`. -/
def Thread.Receives (p : PcbId) : Thread → Prop
  | .read q _ .load | .read q _ (.recv (.own _)) => q = p
  | _ => False

/-- So many calls of `Read` are under way that can take a chunk from the channel made with `p`. -/
def Sys.Receivers (s : Sys) (p : PcbId) (n : Nat) : Prop :=
  ∃ ts : Finset Tid, n ≤ ts.card ∧ ∀ u ∈ ts, (s.threads u).Receives p

/-- Every chunk that was delivered was returned by a `Read` before the switch or received on `c`
after it, or is in the channel in use or about to be sent on it, in the order of delivery. None
is left in the channel made with `p` after the switch, and after `err` was set none but for a
`Read` under way. None is sent on a closed channel, and no channel is closed twice. -/
structure KeepsStream (cfg : Config) (p : PcbId) (c : Nat) (tr : List (Sys × Act)) (s : Sys) :
    Prop where
  stream : select (fun x => delivers cfg p x.1 x.2) tr =
    select (fun x => readBefore p x.1 x.2) tr ++ select (fun x => receivedOn c x.1 x.2) tr ++
      (s.chans (s.pcbs p).recvQueued).buf ++ s.loop.pushing p
  left : (s.pcbs p).recvQueued ≠ .own p → (s.chans (.own p)).buf = []
  lost : (s.pcbs p).err = true → s.Receivers p (s.chans (.own p)).buf.length
  after : (s.pcbs p).recvQueued = .own p → select (fun x => receivedOn c x.1 x.2) tr = []
  sent : s.panic = some .sendOnClosed → s.loop.pushing p = []
  closed : ∀ x, tr.getLast? = some x → x.1.Shuts x.2 p → s.panic ≠ some .closeOfClosed

/-- `close` sets `err` of `p` while each chunk has its `Read`. -/
def ClosePc.SwitchOk (p : PcbId) (s : Sys) (q : PcbId) : ClosePc → Prop
  | .setErr => q = p → s.Receivers p (s.chans (.own p)).buf.length
  | _ => True

/-- A `Read` of `p` has loaded the channel made with it and has room for the chunk in it.
`Intercept` finds that channel open, and then empty. -/
def Thread.SwitchOk (p : PcbId) (s : Sys) : Thread → Prop
  | .read q len (.recv r) =>
      q = p → r = .own p ∧ ∀ data ∈ (s.chans r).buf.head?, data.length ≤ len
  | .intercept q _ .closeOld => q = p → (s.chans (s.pcbs q).recvQueued).closed = false
  | .intercept q _ .swap => q = p → (s.chans (s.pcbs q).recvQueued).buf = []
  | .close q pc => pc.SwitchOk p s q
  | _ => True

/-- The channel that the handler has loaded for `p` was not closed since, and a chunk for the
channel made with `p` has its `Read` where `err` is set by now. -/
def LoopPc.SwitchOk (p : PcbId) (s : Sys) : LoopPc → Prop
  | .push q _ _ (some r) => q = p → (s.chans r).closed = false ∧
      (r = .own p → (s.pcbs p).err = true → s.Receivers p ((s.chans r).buf.length + 1))
  | .close q pc _ _ _ => pc.SwitchOk p s q
  | _ => True

/-- A chunk for `p` is not empty, and `err` is not set when a TCP chunk comes. -/
def Callback.SwitchOk (cfg : Config) (p : PcbId) (s : Sys) : Callback → Prop
  | .recv a (some data) ret => s.entry a = some p → ret = .ok ∧ data ≠ [] ∧ (s.pcbs p).err = false
  | .udp src _ (some data) => s.Finds cfg p src → data ≠ []
  | _ => True

def SwitchOk (cfg : Config) (p : PcbId) (s : Sys) : Act → Prop
  | .go t => (s.threads t).SwitchOk p s
  | .loop _ => s.loop.SwitchOk p s
  | .callback cb _ => cb.SwitchOk cfg p s
  | _ => True

/-! ### What a step does to the channel in use -/

/-- The chunks in the channel that stands in `recvQueued`. -/
def Sys.queue (s : Sys) (p : PcbId) : List Bytes := (s.chans (s.pcbs p).recvQueued).buf

/-- `taken` comes out of the channel in use, and what is queued in the step goes into it. -/
def Moves (p : PcbId) (s t : Sys) (taken : List Bytes) : Prop :=
  ∃ new, select (Event.queuedOn p) t.trace = select (Event.queuedOn p) s.trace ++ new ∧
    taken ++ t.queue p = s.queue p ++ new

variable {cfg : Config} {s t : Sys} {o : Outcomes} {a : Act} {p : PcbId} {c : Nat}

/-- Nothing is taken and nothing is queued. -/
theorem moves_of_eq (htrace : select (Event.queuedOn p) t.trace = select (Event.queuedOn p) s.trace)
    (hqueue : t.queue p = s.queue p) : Moves p s t [] := by
  refine ⟨[], ?_, ?_⟩
  · rw [htrace, List.append_nil]
  · rw [hqueue, List.nil_append, List.append_nil]

/-- A PCB changes, and not in the channel it uses. -/
theorem queue_setPcb {q : PcbId} {x : PCB} (hx : x.recvQueued = (s.pcbs q).recvQueued) :
    (s.chans (Function.update s.pcbs q x p).recvQueued).buf = s.queue p := by
  rw [update_field PCB.recvQueued hx, Sys.queue]

theorem WriteStep.moves {th : Tid} {q : PcbId} {w : WriteId} {pc : WritePc}
    (h : WriteStep s th q w pc t) : Moves p s t [] := by
  cases h with
  | lock _ => exact moves_of_eq (by simp [Event.queuedOn]) (queue_setPcb (by rfl))
  | wait _ => exact moves_of_eq (by simp [Event.queuedOn]) (queue_setPcb (by rfl))
  | unlock => exact moves_of_eq rfl (queue_setPcb (by rfl))
  | _ => exact moves_of_eq (by simp [Event.queuedOn]) rfl

theorem CloseStep.moves {who : Actor} {q : PcbId} {pc : ClosePc} {next : Option ClosePc}
    (h : CloseStep s who q pc t next) : Moves p s t [] := by
  cases h with
  | lock _ => exact moves_of_eq rfl (queue_setPcb (by rfl))
  | setErr => exact moves_of_eq (by simp [Event.queuedOn]) (queue_setPcb (by rfl))
  | closeRecv _ hclose =>
      exact moves_of_eq rfl (update_field Chan.buf (Chan.close_done hclose).2.1 _)
  | closeWait _ _ => exact moves_of_eq rfl (queue_setPcb (by rfl))
  | unlock => exact moves_of_eq rfl (queue_setPcb (by rfl))
  | _ => exact moves_of_eq rfl rfl

/-- The channel in use is one of the two. -/
theorem Sys.UsedBy.queue_or (h : s.UsedBy p c) :
    (s.pcbs p).recvQueued = .own p ∨ (s.pcbs p).recvQueued = .user c := by
  rcases (h.queue p).own_or with hown | ⟨huser, _⟩
  · exact Or.inl hown
  · exact Or.inr huser

/-- What happens to a channel of another PCB is not seen. -/
theorem Sys.UsedBy.queue_update (h : s.UsedBy p c) {r : RecvChan} {ch : Chan Bytes}
    (hr : r ≠ .own p ∧ r ≠ .user c) :
    (Function.update s.chans r ch (s.pcbs p).recvQueued).buf = s.queue p := by
  rcases h.queue_or with hq | hq
  · rw [Sys.queue, hq, Function.update_of_ne hr.1.symm]
  · rw [Sys.queue, hq, Function.update_of_ne hr.2.symm]

theorem InterceptStep.moves {th : Tid} {q : PcbId} {d : Nat} {pc : InterPc}
    (hth : s.threads th = .intercept q d pc) (h : InterceptStep s th q d pc t)
    (hs : s.InSwitch p c) (hused : s.UsedBy p c)
    (hok : (Thread.intercept q d pc).SwitchOk p s) : Moves p s t [] := by
  cases h with
  | lock _ => exact moves_of_eq rfl (queue_setPcb (by rfl))
  | twice _ => exact moves_of_eq rfl (queue_setPcb (by rfl))
  | set => exact moves_of_eq rfl (queue_setPcb (by rfl))
  | closeOld hclose => exact moves_of_eq rfl (update_field Chan.buf (Chan.close_done hclose).2.1 _)
  | swap =>
      refine moves_of_eq rfl ?_
      by_cases hq : q = p
      · subst hq
        have hstage : (Thread.intercept q d .swap).Stage q (s.pcbs q) (s.chans (.own q)).closed :=
          hth ▸ hs.threads th
        have hd : d = c ↔ q = q := by
          have := hused.threads th
          rwa [hth] at this
        have hnew : (s.chans (.user d)).buf = [] := by
          rw [hd.mpr rfl]
          exact hs.unused (hstage rfl).2.1
        have hold : (s.chans (s.pcbs q).recvQueued).buf = [] := hok rfl
        simp only [Sys.queue, Function.update_self, hnew, hold]
      · exact congrArg (fun x : PCB => (s.chans x.recvQueued).buf)
          (Function.update_of_ne (Ne.symm hq) ..)
  | unlock => exact moves_of_eq rfl (queue_setPcb (by rfl))
  | _ => exact moves_of_eq rfl rfl

/-- `Read` receives from the channel it has loaded. -/
theorem ReadStep.takes {th : Tid} {q : PcbId} {len : Nat} {r : RecvChan}
    (h : ReadStep s th q len (.recv r) t) (p : PcbId) :
    ∃ chunk ch, (s.chans r).recv = .done (chunk, ch) ∧ t.chans = Function.update s.chans r ch ∧
      t.pcbs = s.pcbs ∧ t.loop = s.loop ∧
        select (Event.queuedOn p) t.trace = select (Event.queuedOn p) s.trace := by
  cases h with
  | nothing hrecv _ => exact ⟨_, _, hrecv, rfl, rfl, rfl, rfl⟩
  | tooSmall hrecv _ => exact ⟨_, _, hrecv, rfl, rfl, rfl, rfl⟩
  | chunk hrecv _ _ _ => exact ⟨_, _, hrecv, rfl, rfl, rfl, rfl⟩
  | datagram hrecv _ _ _ =>
      exact ⟨_, _, hrecv, rfl, rfl, rfl, select_snoc_of_none (by rfl) _⟩

theorem readBefore_recv {th : Tid} {q : PcbId} {len : Nat} {r : RecvChan}
    (hth : s.threads th = .read q len (.recv r)) : readBefore p s (.go th) =
      if q = p ∧ (s.pcbs p).recvQueued = .own p then
        (s.chans r).buf.head?.filter fun data => data.length ≤ len
      else none := by
  simp only [readBefore, hth]

theorem readBefore_of_ne {th : Tid} (hth : ∀ q len r, s.threads th ≠ .read q len (.recv r)) :
    readBefore p s (.go th) = none := by
  simp only [readBefore]

/-- A `Read` takes its chunk from the channel in use, or finds the old one drained. -/
theorem ReadStep.moves {th : Tid} {q : PcbId} {len : Nat} {pc : ReadPc}
    (hth : s.threads th = .read q len pc) (h : ReadStep s th q len pc t) (hused : s.UsedBy p c)
    (hleft : (s.pcbs p).recvQueued ≠ .own p → (s.chans (.own p)).buf = [])
    (hok : (Thread.read q len pc).SwitchOk p s) :
    Moves p s t (readBefore p s (.go th)).toList := by
  have other : (∀ r, pc ≠ .recv r) → readBefore p s (.go th) = none := by
    intro hpc
    refine readBefore_of_ne ?_
    intro q' len' r heq
    rw [hth] at heq
    cases heq
    exact hpc r rfl
  cases pc with
  | recv r =>
      obtain ⟨chunk, ch, hrecv, hchans, hpcbs, _, htrace⟩ := h.takes p
      rw [readBefore_recv hth]
      have hqueue : t.queue p = (Function.update s.chans r ch (s.pcbs p).recvQueued).buf := by
        rw [Sys.queue, hchans, hpcbs]
      by_cases hq : q = p
      · subst hq
        obtain ⟨rfl, hfits⟩ := hok rfl
        by_cases hown : (s.pcbs q).recvQueued = .own q
        · rw [if_pos ⟨rfl, hown⟩]
          rw [hown, Function.update_self] at hqueue
          rcases Chan.recv_done hrecv with ⟨x, _, hbuf, _⟩ | ⟨_, rfl, hbuf, _⟩
          · have hx : x.length ≤ len := hfits x (by rw [hbuf]; rfl)
            refine ⟨[], by rw [htrace, List.append_nil], ?_⟩
            rw [hqueue, Sys.queue, hown, hbuf, List.head?_cons, Option.filter_some,
              if_pos (decide_eq_true hx), List.append_nil]
            rfl
          · rw [hbuf]
            refine moves_of_eq htrace ?_
            rw [hqueue, Sys.queue, hown]
        · rw [if_neg (fun hand => hown hand.2)]
          refine moves_of_eq htrace ?_
          rw [hqueue, Sys.queue]
          refine update_field Chan.buf ?_ _
          rw [hleft hown]
          exact Chan.drained_of_recv hrecv (hleft hown)
      · rw [if_neg (fun hand => hq hand.1)]
        have hloaded : RecvChan.Loaded p c q r (s.pcbs p).recvQueued := by
          have := hused.threads th
          rwa [hth] at this
        refine moves_of_eq htrace ?_
        rw [hqueue]
        exact hused.queue_update (hloaded.ne hq)
  | _ =>
      rw [other (by simp)]
      cases h <;> exact moves_of_eq (by simp [Event.queuedOn]) rfl

theorem LoopStep.moves {pc : LoopPc} (hpc : s.loop = pc) (h : LoopStep cfg s o pc t)
    (hs : s.InSwitch p c) (hused : s.UsedBy p c) (hok : pc.SwitchOk p s) : Moves p s t [] := by
  have huses : pc.Uses p c (s.pcbs p).recvQueued := hpc ▸ hused.loop
  have pushed : ∀ {q r ch data}, RecvChan.Loaded p c q r (s.pcbs p).recvQueued →
      (q = p → (s.chans r).closed = false ∧
        (r = .own p → (s.pcbs p).err = true → s.Receivers p ((s.chans r).buf.length + 1))) →
      (s.chans r).send data = .done ch →
        (Function.update s.chans r ch (s.pcbs p).recvQueued).buf =
          s.queue p ++ if q = p then [data] else [] := by
    intro q r ch data hloaded hopen hsend
    by_cases hq : q = p
    · subst hq
      have hr : r = (s.pcbs q).recvQueued := by
        rcases hloaded.own_or with rfl | ⟨rfl, hnow⟩
        · by_contra hne
          have hclosed := hs.old (Ne.symm hne)
          rw [(hopen rfl).1] at hclosed
          cases hclosed
        · exact hnow.symm
      rw [hr, Function.update_self, if_pos rfl, (Chan.send_done hsend).2.2.1, hr]
      rfl
    · rw [hused.queue_update (hloaded.ne hq), if_neg hq, List.append_nil]
  cases h with
  | sendFailed _ _ _ _ _ => exact moves_of_eq (by simp [Event.queuedOn]) (queue_setPcb (by rfl))
  | sendTcp _ _ _ _ _ _ _ => exact moves_of_eq (by simp [Event.queuedOn]) (queue_setPcb (by rfl))
  | @push q data k r ch hsend =>
      refine ⟨if q = p then [data] else [], ?_, ?_⟩
      · simp only [select_snoc, Event.queuedOn, Option.toList_none, List.append_nil]
        split <;> rfl
      · exact pushed huses hok hsend
  | @pushUdp q data src dst old r ch hsend =>
      refine ⟨if q = p then [data] else [], ?_, ?_⟩
      · simp only [select_snoc, Event.queuedOn, Option.toList_none, List.append_nil]
        split <;> rfl
      · exact pushed huses hok hsend
  | done _ => exact moves_of_eq rfl (queue_setPcb (by rfl))
  | close hclose =>
      have hmoves := hclose.moves (p := p)
      exact hmoves
  | closed =>
      refine moves_of_eq ?_ (queue_setPcb (by rfl))
      cases hevent : cfg.event <;> simp [Event.queuedOn]
  | _ => exact moves_of_eq (by simp [Event.queuedOn]) rfl

theorem CallbackStep.moves {cb : Callback} (h : CallbackStep cfg s o cb t) (hs : s.InSwitch p c) :
    Moves p s t [] := by
  have made : ∀ {flow : Flow}, (s.chans (Function.update s.pcbs s.nextPcb
      (newPCB s.nextPcb flow) p).recvQueued).buf = s.queue p := by
    intro flow
    by_cases hp : p = s.nextPcb
    · have hown := hs.fresh hp.symm
      rw [hp] at hown ⊢
      rw [Function.update_self, Sys.queue, hown]
      rfl
    · rw [Function.update_of_ne hp]
      rfl
  cases h with
  | accept _ _ =>
      refine moves_of_eq ?_ made
      cases hevent : cfg.event <;> simp [Event.queuedOn]
  | sent _ _ _ _ _ _ _ _ =>
      exact moves_of_eq (by simp [Event.queuedOn]) (queue_setPcb (by rfl))
  | udpNew _ _ =>
      refine moves_of_eq ?_ made
      cases hevent : cfg.event <;> simp [Event.queuedOn]
  | _ => exact moves_of_eq (by simp [Event.queuedOn]) rfl

/-- Before the switch nothing can be received on `c`. -/
theorem Sys.InSwitch.not_recv (h : s.InSwitch p c) (hown : (s.pcbs p).recvQueued = .own p)
    {r : Option Bytes × Chan Bytes} : (s.chans (.user c)).recv ≠ .done r := by
  intro hrecv
  rw [Chan.recv_blocked_iff.mpr ⟨h.unused hown, h.isOpen⟩] at hrecv
  cases hrecv

theorem Step.moves (h : Step cfg s a t) (hs : s.Switches p c)
    (hleft : (s.pcbs p).recvQueued ≠ .own p → (s.chans (.own p)).buf = [])
    (hok : SwitchOk cfg p s a) :
    Moves p s t ((readBefore p s a).toList ++ (receivedOn c s a).toList) := by
  have still : ∀ {th : Tid}, (∀ q len r, s.threads th ≠ .read q len (.recv r)) → Moves p s t [] →
      Moves p s t ((readBefore p s (.go th)).toList ++ (receivedOn c s (.go th)).toList) := by
    intro th hth hmoves
    rw [readBefore_of_ne hth]
    exact hmoves
  cases h with
  | callClose _ _ => exact moves_of_eq (by simp [Event.queuedOn]) rfl
  | @read th q len pc _ hth h =>
      have hnone : (receivedOn c s (.go th)).toList = [] := rfl
      rw [hnone, List.append_nil]
      exact h.moves hth hs.used hleft (hth ▸ hok)
  | write hth h => exact still (by simp [hth]) h.moves
  | close hth h =>
      have hmoves := h.moves (p := p)
      exact still (by simp [hth]) hmoves
  | @closed th q hth =>
      exact still (by simp [hth]) (moves_of_eq rfl (queue_setPcb (by rfl)))
  | closePost hth _ => exact still (by simp [hth]) (moves_of_eq rfl rfl)
  | intercept hth h =>
      exact still (by simp [hth]) (h.moves hth hs.switch hs.used (hth ▸ hok))
  | frame _ => exact moves_of_eq (by simp [Event.queuedOn]) rfl
  | @userRecv d chunk ch hrecv =>
      have htaken : (readBefore p s (.userRecv d)).toList ++ (receivedOn c s (.userRecv d)).toList =
          (if d = c then (s.chans (.user c)).buf.head? else none).toList := rfl
      rw [htaken]
      by_cases hd : d = c
      · subst hd
        have huser : (s.pcbs p).recvQueued = .user d := by
          rcases hs.used.queue_or with hown | huser
          · exact absurd hrecv (hs.switch.not_recv hown)
          · exact huser
        refine ⟨[], (List.append_nil _).symm, ?_⟩
        rw [if_pos rfl, List.append_nil, Sys.queue, Sys.queue, huser]
        simp only [Function.update_self]
        exact Chan.head_of_recv hrecv
      · rw [if_neg hd]
        refine moves_of_eq rfl ?_
        refine hs.used.queue_update ⟨by simp, ?_⟩
        intro heq
        exact hd (RecvChan.user.inj heq)
  | takeClose _ _ _ => exact moves_of_eq (by simp [Event.queuedOn]) rfl
  | takeCloseUdp _ _ _ => exact moves_of_eq (by simp [Event.queuedOn]) rfl
  | loop hpc h =>
      have hmoves := h.moves hpc hs.switch hs.used (hpc ▸ hok)
      exact hmoves
  | callback _ h =>
      have hmoves := h.moves hs.switch
      exact hmoves
  | _ => exact moves_of_eq rfl rfl

/-! ### What a step does to the two channels -/

/-- A closed channel that is drained stays so. -/
theorem Step.drained {r : RecvChan} (h : Step cfg s a t) (hclosed : (s.chans r).closed = true)
    (hbuf : (s.chans r).buf = []) : (t.chans r).buf = [] := by
  have update : ∀ {x : RecvChan} {ch : Chan Bytes}, (r = x → ch.buf = []) →
      (Function.update s.chans x ch r).buf = [] := by
    intro x ch hch
    by_cases hx : r = x
    · subst hx
      rw [Function.update_self]
      exact hch rfl
    · rwa [Function.update_of_ne hx]
  have taken : ∀ {x : RecvChan} {chunk ch}, (s.chans x).recv = .done (chunk, ch) →
      (Function.update s.chans x ch r).buf = [] := by
    intro x chunk ch hrecv
    refine update ?_
    rintro rfl
    exact Chan.drained_of_recv hrecv hbuf
  have shut : ∀ {x : RecvChan} {ch : Chan Bytes}, (s.chans x).close = .done ch →
      (Function.update s.chans x ch r).buf = [] :=
    fun hclose => (update_field Chan.buf (Chan.close_done hclose).2.1 r).trans hbuf
  have sent : ∀ {x : RecvChan} {data ch}, (s.chans x).send data = .done ch →
      (Function.update s.chans x ch r).buf = [] := by
    intro x data ch hsend
    refine update ?_
    rintro rfl
    rw [(Chan.send_done hsend).1] at hclosed
    cases hclosed
  have close : ∀ {who q pc next s'}, CloseStep s who q pc s' next → (s'.chans r).buf = [] := by
    intro who q pc next s' h
    cases h with
    | closeRecv _ hclose => exact shut hclose
    | _ => exact hbuf
  cases h with
  | read _ h =>
      cases h with
      | nothing hrecv _ => exact taken hrecv
      | tooSmall hrecv _ => exact taken hrecv
      | chunk hrecv _ _ _ => exact taken hrecv
      | datagram hrecv _ _ _ => exact taken hrecv
      | _ => exact hbuf
  | write _ h => cases h <;> exact hbuf
  | close _ h =>
      have hclose := close h
      exact hclose
  | intercept _ h =>
      cases h with
      | closeOld hclose => exact shut hclose
      | _ => exact hbuf
  | userRecv hrecv => exact taken hrecv
  | loop _ h =>
      cases h with
      | push hsend => exact sent hsend
      | pushUdp hsend => exact sent hsend
      | close h =>
          have hclose := close h
          exact hclose
      | _ => exact hbuf
  | callback _ h => cases h <;> exact hbuf
  | _ => exact hbuf

/-- Only `Intercept` changes `recvQueued`. -/
theorem Step.recvQueued (h : Step cfg s a t) (hs : s.InSwitch p c) :
    (t.pcbs p).recvQueued = (s.pcbs p).recvQueued ∨
      ∃ th d, a = .go th ∧ s.threads th = .intercept p d .swap ∧
        (t.pcbs p).recvQueued = .user d ∧ t.chans = s.chans := by
  have made : ∀ {flow : Flow}, (Function.update s.pcbs s.nextPcb
      (newPCB s.nextPcb flow) p).recvQueued = (s.pcbs p).recvQueued := by
    intro flow
    by_cases hp : p = s.nextPcb
    · rw [hs.fresh hp.symm, hp, Function.update_self]
      rfl
    · rw [Function.update_of_ne hp]
  have close : ∀ {who q pc next s'}, CloseStep s who q pc s' next →
      (s'.pcbs p).recvQueued = (s.pcbs p).recvQueued := by
    intro who q pc next s' h
    cases h <;> first | rfl | exact update_field PCB.recvQueued (by rfl) p
  cases h with
  | read _ h => cases h <;> exact Or.inl rfl
  | write _ h =>
      cases h <;>
        first | exact Or.inl rfl | exact Or.inl (update_field PCB.recvQueued (by rfl) p)
  | close _ h =>
      have hclose := close h
      exact Or.inl hclose
  | closed _ => exact Or.inl (update_field PCB.recvQueued (by rfl) p)
  | @intercept th q d pc _ hth h =>
      cases h with
      | swap =>
          by_cases hq : q = p
          · subst hq
            refine Or.inr ⟨th, d, rfl, hth, ?_, rfl⟩
            simp only [Function.update_self]
          · exact Or.inl (congrArg PCB.recvQueued (Function.update_of_ne (Ne.symm hq) ..))
      | _ => first | exact Or.inl rfl | exact Or.inl (update_field PCB.recvQueued (by rfl) p)
  | loop _ h =>
      cases h with
      | close h =>
          have hclose := close h
          exact Or.inl hclose
      | _ => first | exact Or.inl rfl | exact Or.inl (update_field PCB.recvQueued (by rfl) p)
  | callback _ h =>
      cases h with
      | accept _ _ => exact Or.inl made
      | udpNew _ _ => exact Or.inl made
      | _ => first | exact Or.inl rfl | exact Or.inl (update_field PCB.recvQueued (by rfl) p)
  | _ => exact Or.inl rfl

/-- Nothing is left in the old channel. -/
theorem Step.left (h : Step cfg s a t) (hs : s.InSwitch p c)
    (hleft : (s.pcbs p).recvQueued ≠ .own p → (s.chans (.own p)).buf = [])
    (hok : SwitchOk cfg p s a) (ht : (t.pcbs p).recvQueued ≠ .own p) :
    (t.chans (.own p)).buf = [] := by
  rcases h.recvQueued hs with heq | ⟨th, d, rfl, hth, _, hchans⟩
  · rw [heq] at ht
    exact h.drained (hs.old ht) (hleft ht)
  · have hstage : (Thread.intercept p d .swap).Stage p (s.pcbs p) (s.chans (.own p)).closed :=
      hth ▸ hs.threads th
    have hempty : (Thread.intercept p d .swap).SwitchOk p s := hth ▸ hok
    have hbuf := hempty rfl
    rw [(hstage rfl).2.1] at hbuf
    rw [hchans]
    exact hbuf

/-- Nothing is received on `c` before the switch. -/
theorem Step.after (h : Step cfg s a t) (hs : s.InSwitch p c)
    (ht : (t.pcbs p).recvQueued = .own p) :
    (s.pcbs p).recvQueued = .own p ∧ receivedOn c s a = none := by
  have hown : (s.pcbs p).recvQueued = .own p := by
    rcases h.recvQueued hs with heq | ⟨_, _, _, _, huser, _⟩
    · rw [← heq, ht]
    · rw [ht] at huser
      cases huser
  refine ⟨hown, ?_⟩
  cases h with
  | @userRecv d chunk ch hrecv =>
      refine if_neg ?_
      rintro rfl
      exact hs.not_recv hown hrecv
  | _ => rfl

/-! ### Chunks left when `err` is set -/

theorem Step.sets_err (h : Step cfg s a t) (hcloses : s.Closes a p .setErr) :
    (t.pcbs p).err = true ∧ ∀ u, a = .go u → ¬(t.threads u).Receives p := by
  rcases hcloses with ⟨th, rfl, hth⟩ | ⟨o, b, e, k, rfl, hloop⟩
  · cases h with
    | close hth' h =>
        cases hth.symm.trans hth'
        cases h with
        | setErr =>
            refine ⟨by simp only [Function.update_self], ?_⟩
            rintro u ⟨⟩ hreads
            simp only [Function.update_self] at hreads
            exact hreads
    | read hth' _ => cases hth.symm.trans hth'
    | write hth' _ => cases hth.symm.trans hth'
    | closed hth' => cases hth.symm.trans hth'
    | closePost hth' _ => cases hth.symm.trans hth'
    | intercept hth' _ => cases hth.symm.trans hth'
  · cases h with
    | loop hpc h =>
        cases hloop.symm.trans hpc
        cases h with
        | close h =>
            cases h with
            | setErr => exact ⟨by simp only [Function.update_self], nofun⟩

/-- Only `Read` of `p` and the receive handlers for `p` change what is in the channel made with
it. -/
theorem Step.own_cases (h : Step cfg s a t) (hused : s.UsedBy p c) :
    (t.chans (.own p)).buf = (s.chans (.own p)).buf ∨
      (∃ th len, a = .go th ∧ s.threads th = .read p len (.recv (.own p))) ∨
      ∃ o data ctx, a = .loop o ∧ s.loop = .push p data ctx (some (.own p)) ∧
        (t.chans (.own p)).buf = (s.chans (.own p)).buf ++ [data] := by
  have shut : ∀ {x : RecvChan} {ch : Chan Bytes}, (s.chans x).close = .done ch →
      (Function.update s.chans x ch (.own p)).buf = (s.chans (.own p)).buf :=
    fun hclose => update_field Chan.buf (Chan.close_done hclose).2.1 _
  have close : ∀ {who q pc next s'}, CloseStep s who q pc s' next →
      (s'.chans (.own p)).buf = (s.chans (.own p)).buf := by
    intro who q pc next s' h
    cases h with
    | closeRecv _ hclose => exact shut hclose
    | _ => rfl
  have pushed : ∀ {o q data ctx r ch}, s.loop = .push q data ctx (some r) →
      (s.chans r).send data = .done ch →
      (Function.update s.chans r ch (.own p)).buf = (s.chans (.own p)).buf ∨
        (∃ th len, Act.loop o = .go th ∧ s.threads th = .read p len (.recv (.own p))) ∨
        ∃ o' data' ctx', Act.loop o = .loop o' ∧ s.loop = .push p data' ctx' (some (.own p)) ∧
          (Function.update s.chans r ch (.own p)).buf = (s.chans (.own p)).buf ++ [data'] := by
    intro o q data ctx r ch hpush hsend
    by_cases hr : r = .own p
    · subst hr
      have huses := hused.loop
      rw [hpush] at huses
      obtain rfl : p = q := huses
      refine Or.inr (Or.inr ⟨o, data, ctx, rfl, hpush, ?_⟩)
      rw [Function.update_self]
      exact (Chan.send_done hsend).2.2.1
    · rw [Function.update_of_ne (Ne.symm hr)]
      exact Or.inl rfl
  cases h with
  | @read th q len pc _ hth h =>
      cases pc with
      | recv r =>
          by_cases hr : r = .own p
          · subst hr
            have huses := hused.threads th
            rw [hth] at huses
            obtain rfl : p = q := huses
            exact Or.inr (Or.inl ⟨th, len, rfl, hth⟩)
          · obtain ⟨chunk, ch, _, hchans, _⟩ := h.takes p
            rw [hchans, Function.update_of_ne (Ne.symm hr)]
            exact Or.inl rfl
      | _ => cases h <;> exact Or.inl rfl
  | write _ h => cases h <;> exact Or.inl rfl
  | close _ h =>
      have hclose := close h
      exact Or.inl hclose
  | intercept _ h =>
      cases h with
      | closeOld hclose => exact Or.inl (shut hclose)
      | _ => exact Or.inl rfl
  | @userRecv d _ _ _ =>
      have hne : RecvChan.own p ≠ .user d := nofun
      exact Or.inl (by simp only [Function.update_of_ne hne])
  | loop hpc h =>
      cases h with
      | push hsend => exact pushed hpc hsend
      | pushUdp hsend => exact pushed hpc hsend
      | close h =>
          have hclose := close h
          exact Or.inl hclose
      | _ => exact Or.inl rfl
  | callback _ h => cases h <;> exact Or.inl rfl
  | _ => exact Or.inl rfl

namespace Sys.Receivers

variable {n : Nat}

theorem zero (s : Sys) (p : PcbId) : s.Receivers p 0 := ⟨∅, Nat.zero_le _, by simp⟩

/-- The calls of `Read` under way stay so until they go on. -/
theorem step (hn : s.Receivers p n) (h : Step cfg s a t)
    (hgo : ∀ u, a = .go u → ¬(s.threads u).Receives p) : t.Receivers p n := by
  obtain ⟨ts, hcard, hall⟩ := hn
  refine ⟨ts, hcard, fun u hu => ?_⟩
  have hreads := hall u hu
  have hbusy : s.threads u ≠ .idle := by
    intro hidle
    rwa [hidle] at hreads
  rw [h.thread_eq (fun ha => hgo u ha hreads) hbusy]
  exact hreads

/-- They were under way before a step of anybody else. -/
theorem back (hn : t.Receivers p n) (h : Step cfg s a t)
    (hgo : ∀ u, a = .go u → ¬(t.threads u).Receives p) (hcall : ∀ u m, a ≠ .call u m) :
    s.Receivers p n := by
  obtain ⟨ts, hcard, hall⟩ := hn
  refine ⟨ts, hcard, fun u hu => ?_⟩
  have hreads := hall u hu
  rw [← h.thread_kept (fun ha => hgo u ha hreads) (hcall u)]
  exact hreads

/-- A `Read` that goes on takes one chunk, if there is one, or has loaded the channel. -/
theorem read {th : Tid} (hn : s.Receivers p (s.chans (.own p)).buf.length)
    (h : Step cfg s (.go th) t) (hreads : (s.threads th).Receives p) (hused : s.UsedBy p c)
    (hleft : (s.pcbs p).recvQueued ≠ .own p → (s.chans (.own p)).buf = []) :
    t.Receivers p (t.chans (.own p)).buf.length := by
  obtain ⟨ts, hcard, hall⟩ := hn
  have others : ∀ u ∈ ts, u ≠ th → (t.threads u).Receives p := by
    intro u hu hne
    have hbusy : s.threads u ≠ .idle := by
      intro hidle
      have hread := hall u hu
      rwa [hidle] at hread
    rw [h.thread_eq (fun ha => hne (Act.go.inj ha).symm) hbusy]
    exact hall u hu
  cases hth : s.threads th with
  | read q len pc =>
      rw [hth] at hreads
      have hread := h.go_read hth
      cases pc with
      | load =>
          obtain rfl : q = p := hreads
          cases hread with
          | load =>
              rcases hused.queue_or with hown | huser
              · refine ⟨ts, hcard, fun u hu => ?_⟩
                by_cases hne : u = th
                · subst hne
                  simp only [Function.update_self, hown]
                  rfl
                · exact others u hu hne
              · rw [hleft (by rw [huser]; nofun)]
                exact zero _ q
      | recv r =>
          cases r with
          | user d => cases hreads
          | own x =>
              obtain rfl : q = p := hreads
              have hloaded := hused.threads th
              rw [hth] at hloaded
              obtain rfl : x = q := hloaded
              obtain ⟨chunk, ch, hrecv, hchans, _⟩ := hread.takes x
              rw [hchans, Function.update_self]
              rcases Chan.recv_done hrecv with ⟨y, _, hbuf, _⟩ | ⟨_, rfl, hbuf, _⟩
              · rw [hbuf, List.length_cons] at hcard
                have herase := Finset.pred_card_le_card_erase (s := ts) (a := th)
                refine ⟨ts.erase th, by omega, fun u hu => ?_⟩
                obtain ⟨hne, hu⟩ := Finset.mem_erase.mp hu
                exact others u hu hne
              · rw [hbuf]
                exact zero _ x
      | _ => cases hreads
  | _ =>
      rw [hth] at hreads
      cases hreads

end Sys.Receivers

/-- A step of `close` is no step of a `Read`. -/
theorem Sys.Closes.not_receives {q : PcbId} {pc : ClosePc} (h : s.Closes a q pc) :
    ∀ u, a = .go u → ¬(s.threads u).Receives p := by
  rintro u rfl hreads
  rcases h with ⟨th, heq, hth⟩ | ⟨_, _, _, _, heq, _⟩
  · cases heq
    rw [hth] at hreads
    exact hreads
  · cases heq

/-- `close` changes nothing in the channel where it sets `err`. -/
theorem Step.own_eq_of_closes (h : Step cfg s a t) (hused : s.UsedBy p c)
    (hcloses : s.Closes a p .setErr) : (t.chans (.own p)).buf = (s.chans (.own p)).buf := by
  rcases h.own_cases hused with hsame | ⟨th, len, rfl, hth⟩ | ⟨o, data, ctx, rfl, hpush, _⟩
  · exact hsame
  · refine absurd ?_ (hcloses.not_receives (p := p) th rfl)
    rw [hth]
    rfl
  · rcases hcloses with ⟨_, heq, _⟩ | ⟨_, _, _, _, _, hloop⟩
    · cases heq
    · rw [hpush] at hloop
      cases hloop

/-- After `err` was set each chunk left has its `Read`. -/
theorem Step.lost (h : Step cfg s a t) (hs : s.Switches p c)
    (hleft : (s.pcbs p).recvQueued ≠ .own p → (s.chans (.own p)).buf = [])
    (hlost : (s.pcbs p).err = true → s.Receivers p (s.chans (.own p)).buf.length)
    (hok : SwitchOk cfg p s a) (herr : (t.pcbs p).err = true) :
    t.Receivers p (t.chans (.own p)).buf.length := by
  rcases h.err_of herr with hbefore | hcloses
  · by_cases hgo : ∃ u, a = .go u ∧ (s.threads u).Receives p
    · obtain ⟨u, rfl, hreads⟩ := hgo
      exact (hlost hbefore).read h hreads hs.used hleft
    · rcases h.own_cases hs.used with hsame | ⟨th, len, rfl, hth⟩ |
        ⟨o, data, ctx, rfl, hpush, hgrows⟩
      · rw [hsame]
        exact (hlost hbefore).step h fun u ha hreads => hgo ⟨u, ha, hreads⟩
      · refine absurd ⟨th, rfl, ?_⟩ hgo
        rw [hth]
        rfl
      · have hpushed : (LoopPc.push p data ctx (some (.own p))).SwitchOk p s := hpush ▸ hok
        rw [hgrows, List.length_append]
        exact ((hpushed rfl).2 rfl hbefore).step h nofun
  · have hawaited : s.Receivers p (s.chans (.own p)).buf.length := by
      rcases hcloses with ⟨th, rfl, hth⟩ | ⟨o, b, e, k, rfl, hloop⟩
      · have hclosing : (Thread.close p .setErr).SwitchOk p s := hth ▸ hok
        exact hclosing rfl
      · have hclosing : (LoopPc.close p .setErr b e k).SwitchOk p s := hloop ▸ hok
        exact hclosing rfl
    rw [h.own_eq_of_closes hs.used hcloses]
    exact hawaited.step h hcloses.not_receives

/-! ### What ends the process -/

theorem Sys.Closes.inClose {pc : ClosePc} (h : s.Closes a p pc) :
    ∃ who, inClose s.threads s.loop who = some (p, pc) := by
  rcases h with ⟨t, rfl, hth⟩ | ⟨o, b, e, k, rfl, hloop⟩
  · refine ⟨.goroutine t, ?_⟩
    rw [LwipCs.inClose, hth]
    rfl
  · refine ⟨.loop, ?_⟩
    rw [LwipCs.inClose, hloop]
    rfl

/-- A step stands in one place. -/
theorem Sys.Closes.eq {q : PcbId} {pc pc' : ClosePc} (h : s.Closes a p pc)
    (h' : s.Closes a q pc') : p = q ∧ pc = pc' := by
  rcases h with ⟨t, rfl, hth⟩ | ⟨o, b, e, k, rfl, hloop⟩
  · rcases h' with ⟨t', heq, hth'⟩ | ⟨_, _, _, _, heq, _⟩
    · cases heq
      rw [hth] at hth'
      cases hth'
      exact ⟨rfl, rfl⟩
    · cases heq
  · rcases h' with ⟨_, heq, _⟩ | ⟨o', b', e', k', heq, hloop'⟩
    · cases heq
    · cases heq
      rw [hloop] at hloop'
      cases hloop'
      exact ⟨rfl, rfl⟩

/-- `PCB.close` finds the channel made with `p` open where it closes it. -/
theorem Sys.InSwitch.open_of_closes (hs : s.InSwitch p c) (hpos : s.Closes a p .closeRecv)
    (hinter : (s.pcbs p).recvInter = false) :
    (s.chans (s.pcbs p).recvQueued).closed = false := by
  rw [hs.before hinter]
  rcases hpos with ⟨t, rfl, hth⟩ | ⟨o, b, e, k, rfl, hloop⟩
  · have hstage : (Thread.close p .closeRecv).Stage p (s.pcbs p) (s.chans (.own p)).closed :=
      hth ▸ hs.threads t
    exact hstage rfl hinter
  · have hstage : (LoopPc.close p .closeRecv b e k).Stage p (s.pcbs p)
        (s.chans (.own p)).closed := hloop ▸ hs.loop
    exact hstage rfl hinter

/-- In `Intercept` or `close` of `p` no channel is closed twice. -/
theorem Step.not_closeOfClosed (h : Step cfg s a t) (hs : s.Switches p c)
    (hrunning : s.panic = none) (hok : SwitchOk cfg p s a) (hshuts : s.Shuts a p) :
    t.panic ≠ some .closeOfClosed := by
  intro hpanic
  cases h.fails hrunning hpanic with
  | @closedOld th q d hth hclosed =>
      have hq : q = p := by
        rcases hshuts with ⟨t', d', pc', heq, hth'⟩ | ⟨pc', hpos⟩
        · cases heq
          rw [hth] at hth'
          cases hth'
          rfl
        · rcases hpos with ⟨t', heq, hth'⟩ | ⟨_, _, _, _, heq, _⟩
          · cases heq
            rw [hth] at hth'
            cases hth'
          · cases heq
      have hopen : (Thread.intercept q d .closeOld).SwitchOk p s := hth ▸ hok
      rw [hopen hq] at hclosed
      cases hclosed
  | @recvTwice _ q hpos hinter hclosed =>
      have hq : q = p := by
        rcases hshuts with ⟨t', d', pc', rfl, hth'⟩ | ⟨pc', hpos'⟩
        · rcases hpos with ⟨t', heq, hth⟩ | ⟨_, _, _, _, heq, _⟩
          · cases heq
            rw [hth'] at hth
            cases hth
          · cases heq
        · exact (hpos.eq hpos').1
      subst hq
      rw [hs.switch.open_of_closes hpos hinter] at hclosed
      cases hclosed
  | @waitTwice _ q hpos hclosed =>
      obtain ⟨who, hwho⟩ := hpos.inClose
      rw [hs.once.isOpen who q _ hwho rfl] at hclosed
      cases hclosed

/-- The handler does not lose its chunk on a closed channel. -/
theorem Step.not_sendOnClosed (h : Step cfg s a t) (hrunning : s.panic = none)
    (hok : SwitchOk cfg p s a) (hpanic : t.panic = some .sendOnClosed) : t.loop.pushing p = [] := by
  rw [h.pushing_of_panic hrunning hpanic]
  cases h.fails hrunning hpanic with
  | @pushClosed o q data ctx r hloop hclosed =>
      have hopen : (LoopPc.push q data ctx (some r)).SwitchOk p s := hloop ▸ hok
      have hq : q ≠ p := by
        rintro hq
        rw [(hopen hq).1] at hclosed
        cases hclosed
      rw [hloop, LoopPc.pushing, if_neg hq]
  | doneClosed hloop _ =>
      rw [hloop]
      rfl

/-! ### The stream -/

theorem Callback.delivers_eq_iff {cb : Callback} :
    delivers cfg p s (.callback cb o) = handed cfg p s (.callback cb o) ↔
      cb.SwitchOk cfg p s := by
  cases cb with
  | recv b data ret =>
      cases data with
      | some data =>
          by_cases hentry : s.entry b = some p
          · cases ret <;> simp [delivers, handed, Callback.SwitchOk, hentry]
          · cases ret <;> simp [delivers, handed, Callback.SwitchOk, hentry]
      | none => exact iff_of_true rfl trivial
  | udp src dst data =>
      cases data with
      | some data =>
          by_cases hfinds : s.Finds cfg p src
          · simp [delivers, handed, Callback.SwitchOk, hfinds]
          · simp [delivers, handed, Callback.SwitchOk, hfinds]
      | none => exact iff_of_true rfl trivial
  | _ => exact iff_of_true rfl trivial

/-- The handlers take each chunk that is delivered. -/
theorem SwitchOk.delivers_eq (hok : SwitchOk cfg p s a) :
    delivers cfg p s a = handed cfg p s a := by
  cases a with
  | callback cb o => exact Callback.delivers_eq_iff.mpr hok
  | _ => rfl

/-- What a step receives and queues, against the chunk that its handler takes. -/
theorem KeepsStream.moved {tr : List (Sys × Act)} (hkeeps : KeepsStream cfg p c tr s)
    (h : Step cfg s a t)
    (hmoves : Moves p s t ((readBefore p s a).toList ++ (receivedOn c s a).toList)) :
    select (fun x => delivers cfg p x.1 x.2) tr ++ (handed cfg p s a).toList =
      select (fun x => readBefore p x.1 x.2) (tr ++ [(s, a)]) ++
        select (fun x => receivedOn c x.1 x.2) (tr ++ [(s, a)]) ++
          (t.chans (t.pcbs p).recvQueued).buf ++ t.loop.pushing p := by
  obtain ⟨new, hqueued, hmoved⟩ := hmoves
  -- what is queued in the step was about to be, or is taken by the handler
  have hpushed : new ++ t.loop.pushing p = s.loop.pushing p ++ (handed cfg p s a).toList := by
    have hlanded := h.landed (p := p)
    rw [Sys.landed, Sys.landed, hqueued, List.append_assoc, List.append_assoc] at hlanded
    exact List.append_cancel_left hlanded
  -- a `Read` takes a chunk only while nothing was received on `c`
  have hswap : (readBefore p s a).toList ++ select (fun x => receivedOn c x.1 x.2) tr =
      select (fun x => receivedOn c x.1 x.2) tr ++ (readBefore p s a).toList := by
    by_cases hown : (s.pcbs p).recvQueued = .own p
    · rw [hkeeps.after hown, List.append_nil, List.nil_append]
    · have hnone : readBefore p s a = none := by
        cases a with
        | go th =>
            simp only [readBefore]
            split
            · exact if_neg fun hand => hown hand.2
            · rfl
        | _ => rfl
      rw [hnone, Option.toList_none, List.append_nil, List.nil_append]
  simp only [select_snoc, hkeeps.stream]
  calc _ = select (fun x => readBefore p x.1 x.2) tr ++
        select (fun x => receivedOn c x.1 x.2) tr ++ s.queue p ++
          (s.loop.pushing p ++ (handed cfg p s a).toList) := by
        simp only [List.append_assoc, Sys.queue]
    _ = select (fun x => readBefore p x.1 x.2) tr ++
        select (fun x => receivedOn c x.1 x.2) tr ++ (s.queue p ++ new) ++
          t.loop.pushing p := by
        simp only [← hpushed, List.append_assoc]
    _ = select (fun x => readBefore p x.1 x.2) tr ++
        (select (fun x => receivedOn c x.1 x.2) tr ++ (readBefore p s a).toList) ++
          (receivedOn c s a).toList ++ t.queue p ++ t.loop.pushing p := by
        simp only [← hmoved, List.append_assoc]
    _ = _ := by
        rw [← hswap]
        simp only [List.append_assoc, Sys.queue]

/-- A step that meets the condition moves the stream on. -/
theorem KeepsStream.step {tr : List (Sys × Act)} (hkeeps : KeepsStream cfg p c tr s)
    (hs : s.Switches p c) (hrunning : s.panic = none) (h : Step cfg s a t)
    (hok : SwitchOk cfg p s a) : KeepsStream cfg p c (tr ++ [(s, a)]) t := by
  refine ⟨?_, h.left hs.switch hkeeps.left hok, h.lost hs hkeeps.left hkeeps.lost hok, ?_,
    h.not_sendOnClosed hrunning hok, ?_⟩
  · rw [← hkeeps.moved h (h.moves hs hkeeps.left hok), select_snoc, hok.delivers_eq]
  · intro ht
    obtain ⟨hown, hnone⟩ := h.after hs.switch ht
    simp only [select_snoc, hkeeps.after hown, hnone]
    rfl
  · intro x hx hshuts
    rw [List.getLast?_concat] at hx
    cases hx
    exact h.not_closeOfClosed hs hrunning hok hshuts

/-- A step of a goroutine that returns no chunk leaves the channel in use as it is. -/
theorem KeepsStream.queue_eq {tr : List (Sys × Act)} {th : Tid}
    (hkeeps : KeepsStream cfg p c tr s) (ht : KeepsStream cfg p c (tr ++ [(s, .go th)]) t)
    (hloop : t.loop = s.loop) (hnone : readBefore p s (.go th) = none) :
    t.queue p = s.queue p := by
  have hstream := ht.stream
  have hdelivers : delivers cfg p s (.go th) = none := rfl
  have hreceived : receivedOn c s (.go th) = none := rfl
  simp only [select_snoc, hnone, hdelivers, hreceived, Option.toList_none, List.append_nil, hloop,
    hkeeps.stream] at hstream
  exact (List.append_cancel_left (List.append_cancel_right hstream)).symm

/-- A `Read` that keeps the stream has room for its chunk and takes it from the old channel. -/
theorem ReadStep.switchOk {tr : List (Sys × Act)} {th : Tid} {q : PcbId} {len : Nat} {pc : ReadPc}
    (hth : s.threads th = .read q len pc) (h : ReadStep s th q len pc t) (hs : s.Switches p c)
    (hkeeps : KeepsStream cfg p c tr s) (ht : KeepsStream cfg p c (tr ++ [(s, .go th)]) t) :
    (Thread.read q len pc).SwitchOk p s := by
  cases pc with
  | recv r =>
      rintro rfl
      obtain ⟨chunk, ch, hrecv, hchans, hpcbs, hloop, _⟩ := h.takes q
      have hqueue : t.queue q = (Function.update s.chans r ch (s.pcbs q).recvQueued).buf := by
        rw [Sys.queue, hchans, hpcbs]
      -- the chunk of a `Read` that returns nothing is lost
      have lost : r = (s.pcbs q).recvQueued → readBefore q s (.go th) = none → ∀ x,
          (s.chans r).buf ≠ x :: ch.buf := by
        intro hr hnone x hbuf
        have heq := hkeeps.queue_eq ht hloop hnone
        rw [hqueue, Sys.queue, ← hr, Function.update_self, hbuf] at heq
        exact absurd heq.symm (List.cons_ne_self x ch.buf)
      have hloaded : RecvChan.Loaded q c q r (s.pcbs q).recvQueued := by
        have := hs.used.threads th
        rwa [hth] at this
      rcases hloaded.own_or with rfl | ⟨rfl, hnow⟩
      · refine ⟨rfl, ?_⟩
        intro data hdata
        by_cases hown : (s.pcbs q).recvQueued = .own q
        · by_contra hlen
          rcases Chan.recv_done hrecv with ⟨x, _, hbuf, _⟩ | ⟨_, _, hbuf, _⟩
          · rw [hbuf, List.head?_cons, Option.mem_some] at hdata
            subst hdata
            refine lost hown.symm ?_ x hbuf
            rw [readBefore_recv hth, if_pos ⟨rfl, hown⟩, hbuf, List.head?_cons,
              Option.filter_some, if_neg (by simpa using hlen)]
          · rw [hbuf] at hdata
            cases hdata
        · rw [hkeeps.left hown] at hdata
          cases hdata
      · exfalso
        rcases Chan.recv_done hrecv with ⟨x, _, hbuf, _⟩ | ⟨_, _, _, hclosed⟩
        · refine lost hnow.symm ?_ x hbuf
          rw [readBefore_recv hth, hnow]
          exact if_neg fun hand => absurd hand.2 nofun
        · rw [hs.switch.isOpen] at hclosed
          cases hclosed
  | _ => trivial

theorem InterceptStep.switchOk {tr : List (Sys × Act)} {th : Tid} {q : PcbId} {d : Nat}
    {pc : InterPc} (hth : s.threads th = .intercept q d pc) (h : InterceptStep s th q d pc t)
    (hs : s.Switches p c) (ht : KeepsStream cfg p c (tr ++ [(s, .go th)]) t) :
    (Thread.intercept q d pc).SwitchOk p s := by
  cases h with
  | closeOld hclose => exact fun _ => (Chan.close_done hclose).1
  | closedOld _ =>
      rintro rfl
      exact absurd rfl (ht.closed _ List.getLast?_concat (Or.inl ⟨th, d, _, rfl, hth⟩))
  | swap =>
      rintro rfl
      have hstage : (Thread.intercept q d .swap).Stage q (s.pcbs q) (s.chans (.own q)).closed :=
        hth ▸ hs.switch.threads th
      rw [(hstage rfl).2.1]
      refine ht.left ?_
      simp only [Function.update_self]
      nofun
  | _ => trivial

/-- A `close` that keeps the stream leaves each chunk to its `Read`. -/
theorem Step.closeOk {tr : List (Sys × Act)} {q : PcbId} {pc : ClosePc} (h : Step cfg s a t)
    (hs : s.Switches p c) (ht : KeepsStream cfg p c tr t) (hcloses : s.Closes a q pc) :
    pc.SwitchOk p s q := by
  cases pc with
  | setErr =>
      rintro rfl
      obtain ⟨herr, hgo⟩ := h.sets_err hcloses
      have hlost := ht.lost herr
      rw [h.own_eq_of_closes hs.used hcloses] at hlost
      refine hlost.back h hgo ?_
      rintro u m rfl
      rcases hcloses with ⟨_, heq, _⟩ | ⟨_, _, _, _, heq, _⟩ <;> cases heq
  | _ => trivial

/-- After `err` was set a handler that keeps the stream queues for a `Read`. -/
theorem Step.pushOk {tr : List (Sys × Act)} {q : PcbId} {data : Bytes} {ctx : PushCtx}
    {r : RecvChan} {ch : Chan Bytes} (h : Step cfg s (.loop o) t) (ht : KeepsStream cfg p c tr t)
    (hsend : (s.chans r).send data = .done ch) (hchans : t.chans = Function.update s.chans r ch)
    (hpcbs : t.pcbs = s.pcbs) : (LoopPc.push q data ctx (some r)).SwitchOk p s := by
  obtain ⟨hopen, _, hbuf, _⟩ := Chan.send_done hsend
  refine fun _ => ⟨hopen, ?_⟩
  rintro rfl herr
  have hlost := ht.lost (hpcbs ▸ herr)
  rw [hchans, Function.update_self, hbuf, List.length_append] at hlost
  exact hlost.back h nofun nofun

theorem LoopStep.switchOk {tr : List (Sys × Act)} {pc : LoopPc} (hpc : s.loop = pc)
    (h : LoopStep cfg s o pc t) (hs : s.Switches p c)
    (ht : KeepsStream cfg p c (tr ++ [(s, .loop o)]) t) : pc.SwitchOk p s := by
  have hstep : Step cfg s (.loop o) t := .loop hpc h
  cases h with
  | pushClosed _ =>
      rintro rfl
      have hlost := ht.sent rfl
      rw [hpc, LoopPc.pushing, if_pos rfl] at hlost
      cases hlost
  | push hsend => exact hstep.pushOk ht hsend rfl rfl
  | pushUdp hsend => exact hstep.pushOk ht hsend rfl rfl
  | close _ => exact hstep.closeOk hs ht (Or.inr ⟨o, _, _, _, rfl, hpc⟩)
  | _ => trivial

/-- A handler that keeps the stream takes its chunk. -/
theorem CallbackStep.switchOk {tr : List (Sys × Act)} {cb : Callback} (hloop : s.loop = .lwip)
    (h : CallbackStep cfg s o cb t) (hs : s.Switches p c) (hkeeps : KeepsStream cfg p c tr s)
    (ht : KeepsStream cfg p c (tr ++ [(s, .callback cb o)]) t) : cb.SwitchOk cfg p s := by
  have hstream := ht.stream
  rw [← hkeeps.moved (.callback hloop h) (h.moves hs.switch), select_snoc] at hstream
  have hsame := congrArg List.head? (List.append_cancel_left hstream)
  rw [Option.head?_toList, Option.head?_toList] at hsame
  exact Callback.delivers_eq_iff.mp hsame

/-- Only a step that meets the condition keeps the stream. -/
theorem KeepsStream.switchOk {tr : List (Sys × Act)} (hkeeps : KeepsStream cfg p c tr s)
    (hs : s.Switches p c) (h : Step cfg s a t) (ht : KeepsStream cfg p c (tr ++ [(s, a)]) t) :
    SwitchOk cfg p s a := by
  have elsewhere : ∀ {th x}, s.threads th = x → x.SwitchOk p s → SwitchOk cfg p s (.go th) := by
    rintro th x rfl hx
    exact hx
  have hstep := h
  cases h with
  | read hth h => exact elsewhere hth (h.switchOk hth hs hkeeps ht)
  | write hth _ => exact elsewhere hth trivial
  | close hth _ => exact elsewhere hth (hstep.closeOk hs ht (Or.inl ⟨_, rfl, hth⟩))
  | closed hth => exact elsewhere hth trivial
  | closePost hth _ => exact elsewhere hth trivial
  | intercept hth h => exact elsewhere hth (h.switchOk hth hs ht)
  | loop hpc h =>
      have hok := h.switchOk hpc hs ht
      rw [← hpc] at hok
      exact hok
  | callback hloop h => exact h.switchOk hloop hs hkeeps ht
  | _ => trivial

/-- All along a run in which `c` is handed to `Intercept` of `p` and to no other, the chunks that
lwIP delivers to `p` reach a `Read` or `c`, exactly if each step meets the condition. -/
theorem run_keepsStream_iff {tr : List (Sys × Act)} (hrun : (bridge cfg).Run tr s)
    (hwith : Machine.Meets (InterceptsWith p c) tr) :
    Machine.Throughout (KeepsStream cfg p c) tr s ↔ Machine.Meets (SwitchOk cfg p) tr := by
  refine hrun.throughout_iff (J := fun s => s.Switches p c) (hrun.always hwith run_switches) ?_ ?_
  · refine ⟨rfl, fun hne => absurd rfl hne, nofun, fun _ => rfl, nofun, ?_⟩
    intro x hx
    cases hx
  · intro tr s a t hs _ hkeeps hstep
    have hcases := step_cases hs.order hstep
    exact ⟨hkeeps.switchOk hs hcases, hkeeps.step hs (step_running hstep) hcases⟩

namespace Schedule

/-- lwIP hands over a chunk, and the handler queues it. -/
def deliver (data : Bytes) : List Act :=
  [.callback (.recv 1 (some data) .ok) fine, .loop fine, .loop fine]

/-- The goroutine 0 intercepts the PCB 0 with the channel 5. -/
def intercept : List Act :=
  [.call 0 (.intercept 0 5), .go 0, .go 0, .go 0, .go 0, .go 0, .go 0]

/-- The goroutine 0 reads a chunk from the PCB 0. -/
def readTcp : List Act := [.call 0 (.read 0 1518), .go 0, .go 0, .go 0, .go 0, .go 0]

/-- What the goroutine does with the PCB 0, and no chunk is left when `err` is set. -/
def switches (s : Sys) : Thread → Bool
  | .read _ len (.recv r) => r = .own 0 ∧ (s.chans r).buf.head?.all fun data => data.length ≤ len
  | .intercept q _ .closeOld => !(s.chans (s.pcbs q).recvQueued).closed
  | .intercept q _ .swap => (s.chans (s.pcbs q).recvQueued).buf = []
  | .close _ .setErr => (s.chans (.own 0)).buf = []
  | _ => true

/-- TCP chunks come and are queued before `err` is set, and lwIP does not close. -/
def switchOk (s : Sys) : Act → Bool
  | .go t => switches s (s.threads t)
  | .loop _ =>
      match s.loop with
      | .push q _ _ (some r) => !(s.chans r).closed && !(s.pcbs q).err
      | .close .. => false
      | _ => true
  | .callback (.recv _ (some data) ret) _ => ret = .ok ∧ data ≠ [] ∧ !(s.pcbs 0).err
  | .callback (.udp ..) _ => false
  | _ => true

theorem switchOk_ok {s : Sys} {a : Act} (h : switchOk s a = true) : SwitchOk config 0 s a := by
  have nothing : (s.chans (.own 0)).buf = [] → s.Receivers 0 (s.chans (.own 0)).buf.length := by
    intro hbuf
    rw [hbuf]
    exact .zero s 0
  cases a with
  | go th =>
      simp only [switchOk] at h
      simp only [SwitchOk]
      cases hth : s.threads th with
      | read q len pc =>
          rw [hth] at h
          cases pc with
          | recv r =>
              obtain ⟨hown, hlen⟩ := of_decide_eq_true h
              refine fun _ => ⟨hown, fun data hdata => ?_⟩
              rw [Option.mem_def.mp hdata] at hlen
              exact of_decide_eq_true hlen
          | _ => trivial
      | intercept q d pc =>
          rw [hth] at h
          cases pc with
          | closeOld => exact fun _ => by simpa [switches] using h
          | swap => exact fun _ => of_decide_eq_true h
          | _ => trivial
      | close q pc =>
          rw [hth] at h
          cases pc with
          | setErr => exact fun _ => nothing (of_decide_eq_true h)
          | _ => trivial
      | _ => trivial
  | loop o =>
      simp only [switchOk] at h
      simp only [SwitchOk]
      cases hloop : s.loop with
      | push q data ctx r =>
          rw [hloop] at h
          cases r with
          | none => trivial
          | some r =>
              simp only [Bool.and_eq_true, Bool.not_eq_true'] at h
              rintro rfl
              refine ⟨h.1, fun _ herr => ?_⟩
              rw [h.2] at herr
              cases herr
      | close q pc b e k =>
          rw [hloop] at h
          cases h
      | _ => trivial
  | callback cb o =>
      cases cb with
      | recv b data ret =>
          cases data with
          | some data => exact fun _ => by simpa [switchOk] using h
          | none => trivial
      | udp src dst data => cases h
      | _ => trivial
  | _ => trivial

end Schedule

/-- One chunk is read, and the next one is received on the channel of `Intercept` after `Close`. -/
theorem run_keepsStream_two : ∃ tr s, (bridge Schedule.config).Run tr s ∧
    select (Event.queuedOn 0) s.trace = [[8], [9]] ∧ select (Event.readOn 0) s.trace = [[8]] ∧
      (s.pcbs 0).recvQueued = .user 5 ∧ (s.chans (.user 5)).buf = [] ∧ (s.pcbs 0).err = true ∧
        Machine.Throughout (KeepsStream Schedule.config 0 5) tr s := by
  obtain ⟨tr, s, hrun, hmeets, htest⟩ := Machine.exists_run_of_exec (bridge Schedule.config)
    (fun s a => decide (InterceptsWith 0 5 s a) && Schedule.switchOk s a)
    (Schedule.accept ++ Schedule.deliver [8] ++ Schedule.readTcp ++ Schedule.intercept ++
      Schedule.deliver [9] ++ [.call 0 (.close 0)] ++ List.replicate 7 (.go 0) ++ [.userRecv 5])
    (fun s => select (Event.queuedOn 0) s.trace = [[8], [9]] ∧
      select (Event.readOn 0) s.trace = [[8]] ∧ (s.pcbs 0).recvQueued = .user 5 ∧
        (s.chans (.user 5)).buf = [] ∧ (s.pcbs 0).err = true) (by decide +kernel)
  obtain ⟨hqueued, hread, huser, hbuf, herr⟩ := of_decide_eq_true htest
  have hmet : ∀ {s a}, (decide (InterceptsWith 0 5 s a) && Schedule.switchOk s a) = true →
      InterceptsWith 0 5 s a ∧ SwitchOk Schedule.config 0 s a := by
    intro s a h
    obtain ⟨hwith, hok⟩ := Bool.and_eq_true_iff.mp h
    exact ⟨of_decide_eq_true hwith, Schedule.switchOk_ok hok⟩
  refine ⟨tr, s, hrun, hqueued, hread, huser, hbuf, herr, ?_⟩
  refine (run_keepsStream_iff hrun (hmeets.mono fun _ _ h => (hmet h).1)).mpr ?_
  exact hmeets.mono fun _ _ h => (hmet h).2

/-- A chunk that was queued when `Intercept` is called stays behind in the old channel. -/
theorem not_keepsStream_queued : ∃ tr s, (bridge Schedule.config).Run tr s ∧
    Machine.Meets (InterceptsWith 0 5) tr ∧ s.panic = none ∧
      (s.pcbs 0).recvQueued = .user 5 ∧ (s.chans (.own 0)).buf = [[9]] ∧
        ¬Machine.Throughout (KeepsStream Schedule.config 0 5) tr s := by
  obtain ⟨tr, s, hrun, hmeets, htest⟩ := Machine.exists_run_of_exec (bridge Schedule.config)
    (fun s a => decide (InterceptsWith 0 5 s a))
    (Schedule.accept ++ Schedule.deliver [9] ++ Schedule.intercept)
    (fun s => s.panic = none ∧ (s.pcbs 0).recvQueued = .user 5 ∧ (s.chans (.own 0)).buf = [[9]])
    (by decide +kernel)
  obtain ⟨hpanic, huser, hbuf⟩ := of_decide_eq_true htest
  refine ⟨tr, s, hrun, hmeets.mono fun _ _ => of_decide_eq_true, hpanic, huser, hbuf, ?_⟩
  rintro ⟨_, hkeeps⟩
  have hleft : (s.chans (.own 0)).buf = [] := by
    refine hkeeps.left ?_
    rw [huser]
    nofun
  rw [hbuf] at hleft
  cases hleft

/-- `Intercept` after `Close` closes a closed channel. -/
example : ((bridge Schedule.config).exec (fun _ _ => true) (Sys.init Schedule.config)
    (Schedule.accept ++ [.call 0 (.close 0)] ++ List.replicate 7 (.go 0) ++
      Schedule.intercept.take 5)).map (·.panic) = some (some .closeOfClosed) := by
  decide +kernel

end LwipCs
