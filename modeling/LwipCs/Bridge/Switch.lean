import LwipCs.Bridge.CloseOnce

/-!
# The switch of `recvQueued`

`Intercept` closes the channel made with a PCB and puts its own in the place, in two steps under
`lck`. A `Read` or a handler that has loaded `recvQueued` before goes on with what it loaded.
-/

namespace LwipCs

open Interleave

/-- `Intercept` of `p` is called with `c`, and `c` is handed to no other PCB. -/
def InterceptsWith (p : PcbId) (c : Nat) (_ : Sys) : Act → Prop
  | .call _ (.intercept q d) => d = c ↔ q = p
  | _ => True

instance (p : PcbId) (c : Nat) (s : Sys) : (a : Act) → Decidable (InterceptsWith p c s a)
  | .call _ (.intercept q d) => inferInstanceAs (Decidable (d = c ↔ q = p))
  | .call _ (.read ..) | .call _ (.write ..) | .call _ (.close _) => isTrue trivial
  | .go _ | .reuse .. | .frame _ | .userRecv _ => isTrue trivial
  | .take .. | .loop _ | .callback .. | .release _ => isTrue trivial

/-! ### Who uses the channels -/

/-- A channel loaded from `recvQueued` of `q`, where that of `p` is now `now`: the one made with
`q`, or one handed to it, which is `c` for `p` and stays there. -/
def RecvChan.Loaded (p : PcbId) (c : Nat) (q : PcbId) : RecvChan → RecvChan → Prop
  | .own x, _ => x = q
  | .user d, now => (d = c ↔ q = p) ∧ (q = p → now = .user c)

def Thread.Uses (p : PcbId) (c : Nat) (now : RecvChan) : Thread → Prop
  | .read q _ (.recv r) => r.Loaded p c q now
  | .intercept q d _ => d = c ↔ q = p
  | _ => True

def LoopPc.Uses (p : PcbId) (c : Nat) (now : RecvChan) : LoopPc → Prop
  | .push q _ _ (some r) => r.Loaded p c q now
  | _ => True

/-- The channel made with `p` and `c` are used through `p` only. -/
structure OneUser (p : PcbId) (c : Nat) (pcbs : PcbId → PCB) (threads : Tid → Thread)
    (loop : LoopPc) : Prop where
  queue : ∀ q, (pcbs q).recvQueued.Loaded p c q (pcbs p).recvQueued
  threads : ∀ t, (threads t).Uses p c (pcbs p).recvQueued
  loop : loop.Uses p c (pcbs p).recvQueued

/-- `OneUser` of a state of the system. -/
abbrev Sys.UsedBy (s : Sys) (p : PcbId) (c : Nat) : Prop := OneUser p c s.pcbs s.threads s.loop

section

variable {p q : PcbId} {c : Nat} {now : RecvChan} {r : RecvChan}
variable {pcbs : PcbId → PCB} {threads : Tid → Thread} {loop : LoopPc}

theorem RecvChan.Loaded.own_or (h : r.Loaded p c p now) :
    r = .own p ∨ (r = .user c ∧ now = .user c) := by
  cases r with
  | own x => exact Or.inl (congrArg RecvChan.own h)
  | user d =>
      obtain rfl := h.1.mpr rfl
      exact Or.inr ⟨rfl, h.2 rfl⟩

/-- The channels of another PCB are others. -/
theorem RecvChan.Loaded.ne (h : r.Loaded p c q now) (hq : q ≠ p) : r ≠ .own p ∧ r ≠ .user c := by
  constructor
  · rintro rfl
    exact hq h.symm
  · rintro rfl
    exact hq (h.1.mp rfl)

/-- A loaded channel stays one when `c` comes in the place. -/
theorem RecvChan.Loaded.switch (h : r.Loaded p c q now) : r.Loaded p c q (.user c) := by
  cases r with
  | own x => exact h
  | user d => exact ⟨h.1, fun _ => rfl⟩

theorem Thread.Uses.switch {th : Thread} (h : th.Uses p c now) : th.Uses p c (.user c) := by
  cases th with
  | read q len pc =>
      cases pc with
      | recv r => exact RecvChan.Loaded.switch h
      | _ => trivial
  | intercept q d pc => exact h
  | _ => trivial

theorem LoopPc.Uses.switch (h : loop.Uses p c now) : loop.Uses p c (.user c) := by
  cases loop with
  | push q data ctx target =>
      cases target with
      | none => trivial
      | some r => exact RecvChan.Loaded.switch h
  | _ => trivial

namespace OneUser

theorem setPcb (h : OneUser p c pcbs threads loop) {x : PCB}
    (hx : x.recvQueued = (pcbs q).recvQueued) :
    OneUser p c (Function.update pcbs q x) threads loop := by
  have same : ∀ q', (Function.update pcbs q x q').recvQueued = (pcbs q').recvQueued :=
    update_field PCB.recvQueued hx
  constructor
  · simpa only [same] using h.queue
  · simpa only [same] using h.threads
  · simpa only [same] using h.loop

/-- The channel made with a PCB comes in the place, or the one handed to it. -/
theorem change (h : OneUser p c pcbs threads loop) {x : PCB}
    (hx : x.recvQueued.Loaded p c q x.recvQueued)
    (hp : q = p → x.recvQueued = (pcbs p).recvQueued ∨ x.recvQueued = .user c) :
    OneUser p c (Function.update pcbs q x) threads loop := by
  by_cases hq : q = p
  · subst hq
    rcases hp rfl with hsame | hswitch
    · exact h.setPcb hsame
    · constructor
      · intro q'
        rw [Function.update_self, hswitch]
        by_cases hq' : q' = q
        · subst hq'
          rw [Function.update_self]
          exact hx.switch
        · rw [Function.update_of_ne hq']
          exact (h.queue q').switch
      · intro t
        rw [Function.update_self, hswitch]
        exact (h.threads t).switch
      · rw [Function.update_self, hswitch]
        exact h.loop.switch
  · have same : Function.update pcbs q x p = pcbs p := Function.update_of_ne (Ne.symm hq) ..
    constructor
    · intro q'
      rw [same]
      by_cases hq' : q' = q
      · subst hq'
        rw [Function.update_self]
        cases hr : x.recvQueued with
        | own y =>
            rw [hr] at hx
            exact hx
        | user d =>
            rw [hr] at hx
            exact ⟨hx.1, fun hqp => absurd hqp hq⟩
      · rw [Function.update_of_ne hq']
        exact h.queue q'
    · rw [same]
      exact h.threads
    · rw [same]
      exact h.loop

theorem setThread (h : OneUser p c pcbs threads loop) {t : Tid} {th : Thread}
    (hth : th.Uses p c (pcbs p).recvQueued) :
    OneUser p c pcbs (Function.update threads t th) loop := by
  refine { h with threads := ?_ }
  apply (Function.forall_update_iff threads fun _ x => x.Uses p c (pcbs p).recvQueued).mpr
  exact ⟨hth, fun u _ => h.threads u⟩

theorem goto (h : OneUser p c pcbs threads loop) {pc : LoopPc}
    (hpc : pc.Uses p c (pcbs p).recvQueued) : OneUser p c pcbs threads pc :=
  { h with loop := hpc }

end OneUser

end

variable {cfg : Config} {s t : Sys} {o : Outcomes} {a : Act} {p : PcbId} {c : Nat}

theorem ReadStep.usedBy {th : Tid} {q : PcbId} {len : Nat} {pc : ReadPc}
    (h : ReadStep s th q len pc t) (hs : s.UsedBy p c) : t.UsedBy p c := by
  cases h with
  | intercepted _ => exact hs
  | load => exact hs.setThread (hs.queue q)
  | tooSmall _ _ => exact hs
  | _ => exact hs.setThread trivial

theorem WriteStep.usedBy {th : Tid} {q : PcbId} {w : WriteId} {pc : WritePc}
    (h : WriteStep s th q w pc t) (hs : s.UsedBy p c) : t.UsedBy p c := by
  cases h with
  | lock _ => exact .setThread (hs.setPcb (by rfl)) trivial
  | wait _ => exact .setThread (hs.setPcb (by rfl)) trivial
  | unlock => exact .setThread (hs.setPcb (by rfl)) trivial
  | _ => exact hs.setThread trivial

theorem CloseStep.usedBy {who : Actor} {q : PcbId} {pc : ClosePc} {next : Option ClosePc}
    (h : CloseStep s who q pc t next) (hs : s.UsedBy p c) : t.UsedBy p c := by
  cases h with
  | lock _ => exact hs.setPcb rfl
  | setErr => exact hs.setPcb rfl
  | closeWait _ _ => exact hs.setPcb rfl
  | unlock => exact hs.setPcb rfl
  | _ => exact hs

theorem InterceptStep.usedBy {th : Tid} {q : PcbId} {d : Nat} {pc : InterPc}
    (hth : s.threads th = .intercept q d pc) (h : InterceptStep s th q d pc t)
    (hs : s.UsedBy p c) : t.UsedBy p c := by
  have hd : d = c ↔ q = p := by
    have := hs.threads th
    rwa [hth] at this
  cases h with
  | lock _ => exact .setThread (hs.setPcb (by rfl)) hd
  | twice _ => exact .setThread (hs.setPcb (by rfl)) trivial
  | test _ => exact hs.setThread hd
  | set => exact .setThread (hs.setPcb (by rfl)) hd
  | closeOld _ => exact hs.setThread hd
  | closedOld _ => exact hs
  | swap =>
      have hswap : OneUser p c
          (Function.update s.pcbs q { s.pcbs q with recvQueued := .user d }) s.threads s.loop :=
        hs.change ⟨hd, fun hq => congrArg RecvChan.user (hd.mpr hq)⟩
          fun hq => Or.inr (congrArg RecvChan.user (hd.mpr hq))
      exact hswap.setThread hd
  | unlock => exact .setThread (hs.setPcb (by rfl)) trivial

theorem LoopStep.usedBy {pc : LoopPc} (h : LoopStep cfg s o pc t) (hs : s.UsedBy p c) :
    t.UsedBy p c := by
  cases h with
  | sendEmpty _ => exact hs
  | udpSendEmpty _ => exact hs
  | sendFailed _ _ _ _ _ => exact .goto (hs.setPcb (by rfl)) trivial
  | sendTcp _ _ _ _ _ _ _ => exact .goto (hs.setPcb (by rfl)) trivial
  | target => exact hs.goto (hs.queue _)
  | pushClosed _ => exact hs
  | doneClosed _ => exact hs
  | done _ => exact .goto (hs.setPcb (by rfl)) trivial
  | close hclose => exact .goto (hclose.usedBy hs) trivial
  | closed => exact .goto (hs.setPcb (by rfl)) trivial
  | _ => exact hs.goto trivial

/-- A PCB that is not made has its own channel. -/
theorem OneUser.newPcb {pcbs : PcbId → PCB} {threads : Tid → Thread} {loop : LoopPc}
    {nextPcb : PcbId} {flow : Flow} (h : OneUser p c pcbs threads loop)
    (hfresh : nextPcb = p → (pcbs p).recvQueued = .own p) :
    OneUser p c (Function.update pcbs nextPcb (newPCB nextPcb flow)) threads loop := by
  refine h.change ?_ ?_
  · exact (rfl : nextPcb = nextPcb)
  · intro hp
    rw [hfresh hp, ← hp]
    exact Or.inl rfl

theorem CallbackStep.usedBy {cb : Callback} (h : CallbackStep cfg s o cb t) (hs : s.UsedBy p c)
    (hfresh : s.nextPcb = p → (s.pcbs p).recvQueued = .own p) : t.UsedBy p c := by
  cases h with
  | ignored => exact hs
  | accept _ _ => exact hs.newPcb hfresh
  | assertion => exact hs
  | recvEmpty _ _ _ _ _ _ => exact hs
  | sent _ _ _ _ _ _ _ _ => exact .goto (hs.setPcb (by rfl)) trivial
  | udpEmpty => exact hs
  | udpNew _ _ => exact .goto (hs.newPcb hfresh) trivial
  | _ => exact hs.goto trivial

theorem Step.usedBy (h : Step cfg s a t) (hs : s.UsedBy p c)
    (hfresh : s.nextPcb = p → (s.pcbs p).recvQueued = .own p) (hwith : InterceptsWith p c s a) :
    t.UsedBy p c := by
  cases h with
  | callRead _ _ => exact hs.setThread trivial
  | callWrite _ _ => exact hs.setThread trivial
  | callClose _ _ => exact hs.setThread trivial
  | callIntercept _ _ => exact hs.setThread hwith
  | read _ h => exact h.usedBy hs
  | write _ h => exact h.usedBy hs
  | close _ h => exact .setThread (h.usedBy hs) trivial
  | closed _ => exact .setThread (hs.setPcb (by rfl)) trivial
  | closePost _ _ => exact hs.setThread trivial
  | intercept hth h => exact h.usedBy hth hs
  | takeRecved _ _ => exact hs.goto trivial
  | takeSend _ _ => exact hs.goto trivial
  | takeInput _ _ => exact hs.goto trivial
  | loop _ h => exact h.usedBy hs
  | callback _ h => exact h.usedBy hs hfresh
  | _ => exact hs

/-! ### The two channels -/

/-- What `Intercept` of `p` has done at this place, where `closed` says whether the channel made
with `p` is closed. -/
def InterPc.Stage (p : PcbId) (x : PCB) (closed : Bool) : InterPc → Prop
  | .set => x.recvInter = false
  | .closeOld => x.recvInter = true ∧ x.recvQueued = .own p
  | .swap => x.recvInter = true ∧ x.recvQueued = .own p ∧ closed = true
  | _ => True

/-- `PCB.close` is about to close the channel only if that is open. -/
def ClosePc.Stage (x : PCB) (closed : Bool) : ClosePc → Prop
  | .closeRecv => x.recvInter = false → closed = false
  | _ => True

def Thread.Stage (p : PcbId) (x : PCB) (closed : Bool) : Thread → Prop
  | .intercept q _ pc => q = p → pc.Stage p x closed
  | .close q pc => q = p → pc.Stage x closed
  | _ => True

def LoopPc.Stage (p : PcbId) (x : PCB) (closed : Bool) : LoopPc → Prop
  | .close q pc _ _ _ => q = p → pc.Stage x closed
  | _ => True

/-- The PCB `x`, the channel `own` made with it and the channel `user` of `Intercept`: one is in
use, the other not yet or not any more. -/
structure Switching (p : PcbId) (nextPcb : PcbId) (x : PCB) (own user : Chan Bytes)
    (threads : Tid → Thread) (loop : LoopPc) : Prop where
  threads : ∀ t, (threads t).Stage p x own.closed
  loop : loop.Stage p x own.closed
  before : x.recvInter = false → x.recvQueued = .own p
  made : x.recvInter = true → p < nextPcb
  closed : own.closed = true → p < nextPcb ∧ (x.recvInter = true ∨ x.err = true)
  isOpen : user.closed = false
  unused : x.recvQueued = .own p → user.buf = []
  old : x.recvQueued ≠ .own p → own.closed = true

/-- `Switching` of a state of the system. -/
abbrev Sys.InSwitch (s : Sys) (p : PcbId) (c : Nat) : Prop :=
  Switching p s.nextPcb (s.pcbs p) (s.chans (.own p)) (s.chans (.user c)) s.threads s.loop

section

variable {q : PcbId} {nextPcb : PcbId} {x : PCB} {own user own' user' : Chan Bytes}
variable {pcbs : PcbId → PCB} {threads : Tid → Thread} {loop : LoopPc} {closed : Bool}

/-- A goroutine that does not hold the lock of `p` is not between the steps of the switch. -/
theorem Thread.stage_of_holds {th : Thread} (h : th.holds ≠ some p) : th.Stage p x closed := by
  cases th with
  | intercept q d pc =>
      rintro rfl
      cases pc <;> trivial
  | close q pc =>
      rintro rfl
      cases pc <;> trivial
  | _ => trivial

theorem LoopPc.stage_of_holds (h : loop.holds ≠ some p) : loop.Stage p x closed := by
  cases loop with
  | close q pc a e k =>
      rintro rfl
      cases pc <;> trivial
  | _ => trivial

theorem Thread.Stage.same {th : Thread} {y : PCB} (h : th.Stage p x closed)
    (hinter : y.recvInter = x.recvInter) (hqueue : y.recvQueued = x.recvQueued) :
    th.Stage p y closed := by
  cases th with
  | intercept q d pc =>
      cases pc <;> simpa only [Thread.Stage, InterPc.Stage, hinter, hqueue] using h
  | close q pc =>
      cases pc <;> simpa only [Thread.Stage, ClosePc.Stage, hinter] using h
  | _ => trivial

theorem LoopPc.Stage.same {y : PCB} (h : loop.Stage p x closed)
    (hinter : y.recvInter = x.recvInter) : loop.Stage p y closed := by
  cases loop with
  | close q pc a e k =>
      cases pc <;> simpa only [LoopPc.Stage, ClosePc.Stage, hinter] using h
  | _ => trivial

/-- One actor holds the lock of a PCB. -/
theorem Locks.others (h : Locks pcbs threads loop) {t : Tid} (ht : (threads t).holds = some p) :
    (∀ u, u ≠ t → (threads u).holds ≠ some p) ∧ loop.holds ≠ some p := by
  constructor
  · exact fun u hu hholds => hu (h.eq_of_holds hholds ht)
  · intro hloop
    have := h.unique (a := .loop) (b := .goroutine t) hloop ht
    cases this

theorem Locks.loopOthers (h : Locks pcbs threads loop) (hloop : loop.holds = some p) (u : Tid) :
    (threads u).holds ≠ some p := by
  intro hu
  have := h.unique (a := .loop) (b := .goroutine u) hloop hu
  cases this

/-- Where the holder of the lock of `p` moves, nobody else is between the steps of the switch. -/
theorem Locks.stages (h : Locks pcbs threads loop) {t : Tid} {th : Thread}
    (ht : (threads t).holds = some p) (hth : th.Stage p x closed) :
    (∀ u, (Function.update threads t th u).Stage p x closed) ∧ loop.Stage p x closed := by
  obtain ⟨hothers, hloop⟩ := h.others ht
  constructor
  · apply (Function.forall_update_iff threads fun _ y => y.Stage p x closed).mpr
    exact ⟨hth, fun u hu => Thread.stage_of_holds (hothers u hu)⟩
  · exact LoopPc.stage_of_holds hloop

namespace Switching

/-- A PCB changes, and not in the fields of the switch. -/
theorem setPcb (h : Switching p nextPcb (pcbs p) own user threads loop) {y : PCB}
    (hinter : y.recvInter = (pcbs q).recvInter) (hqueue : y.recvQueued = (pcbs q).recvQueued)
    (herr : (pcbs q).err = true → y.err = true) :
    Switching p nextPcb (Function.update pcbs q y p) own user threads loop := by
  by_cases hq : p = q
  · subst hq
    rw [Function.update_self]
    constructor
    · exact fun t => (h.threads t).same hinter hqueue
    · exact h.loop.same hinter
    · rw [hinter, hqueue]
      exact h.before
    · rw [hinter]
      exact h.made
    · intro hclosed
      rw [hinter]
      exact ⟨(h.closed hclosed).1, (h.closed hclosed).2.imp_right herr⟩
    · exact h.isOpen
    · rw [hqueue]
      exact h.unused
    · rw [hqueue]
      exact h.old
  · rwa [Function.update_of_ne hq]

/-- Another PCB changes. -/
theorem setOther (h : Switching p nextPcb (pcbs p) own user threads loop) {y : PCB} (hq : q ≠ p) :
    Switching p nextPcb (Function.update pcbs q y p) own user threads loop := by
  rwa [Function.update_of_ne (Ne.symm hq)]

theorem setThread (h : Switching p nextPcb x own user threads loop) {t : Tid} {th : Thread}
    (hth : th.Stage p x own.closed) :
    Switching p nextPcb x own user (Function.update threads t th) loop := by
  refine { h with threads := ?_ }
  apply (Function.forall_update_iff threads fun _ y => y.Stage p x own.closed).mpr
  exact ⟨hth, fun u _ => h.threads u⟩

theorem goto (h : Switching p nextPcb x own user threads loop) {pc : LoopPc}
    (hpc : pc.Stage p x own.closed) : Switching p nextPcb x own user threads pc :=
  { h with loop := hpc }

/-- The fresh PCB is made. -/
theorem newPcb {flow : Flow}
    (h : Switching p nextPcb (pcbs p) own user threads loop) :
    Switching p (nextPcb + 1) (Function.update pcbs nextPcb (newPCB nextPcb flow) p) own user
      threads loop := by
  by_cases hp : p = nextPcb
  · subst hp
    have hinter : (pcbs p).recvInter = false := by
      cases hr : (pcbs p).recvInter with
      | false => rfl
      | true => exact absurd (h.made hr) (Nat.lt_irrefl _)
    have hopen : own.closed = false := by
      cases ho : own.closed with
      | false => rfl
      | true => exact absurd (h.closed ho).1 (Nat.lt_irrefl _)
    rw [Function.update_self]
    constructor
    · exact fun t => (h.threads t).same hinter.symm (h.before hinter).symm
    · exact h.loop.same hinter.symm
    · exact fun _ => rfl
    · exact fun hr => absurd hr nofun
    · intro ho
      rw [hopen] at ho
      cases ho
    · exact h.isOpen
    · exact fun _ => h.unused (h.before hinter)
    · exact fun hne => absurd rfl hne
  · rw [Function.update_of_ne hp]
    exact { h with
      made := fun hr => Nat.lt_succ_of_lt (h.made hr)
      closed := fun ho => ⟨Nat.lt_succ_of_lt (h.closed ho).1, (h.closed ho).2⟩ }

/-- A send or a receive on a channel. -/
theorem setChan {chans : RecvChan → Chan Bytes} {r : RecvChan} {ch : Chan Bytes}
    (h : Switching p nextPcb x (chans (.own p)) (chans (.user c)) threads loop)
    (hclosed : ch.closed = (chans r).closed)
    (hbuf : r = .user c → x.recvQueued = .own p → ch.buf = []) :
    Switching p nextPcb x (Function.update chans r ch (.own p))
      (Function.update chans r ch (.user c)) threads loop := by
  have same : ∀ r', (Function.update chans r ch r').closed = (chans r').closed :=
    update_field Chan.closed hclosed
  constructor
  · rw [same]
    exact h.threads
  · rw [same]
    exact h.loop
  · exact h.before
  · exact h.made
  · rw [same]
    exact h.closed
  · rw [same]
    exact h.isOpen
  · intro hqueue
    by_cases hr : .user c = r
    · subst hr
      rw [Function.update_self]
      exact hbuf rfl hqueue
    · rw [Function.update_of_ne hr]
      exact h.unused hqueue
  · rw [same]
    exact h.old

/-- A channel of another PCB is closed. -/
theorem closeOther {chans : RecvChan → Chan Bytes} {r : RecvChan} {ch : Chan Bytes}
    (h : Switching p nextPcb x (chans (.own p)) (chans (.user c)) threads loop)
    (hr : r ≠ .own p ∧ r ≠ .user c) :
    Switching p nextPcb x (Function.update chans r ch (.own p))
      (Function.update chans r ch (.user c)) threads loop := by
  rwa [Function.update_of_ne hr.1.symm, Function.update_of_ne hr.2.symm]

/-- The channel made with `p` is closed by a goroutine that holds the lock. -/
theorem closeOwn {chans : RecvChan → Chan Bytes} {r : RecvChan} {ch : Chan Bytes}
    (h : Switching p nextPcb x (chans (.own p)) (chans (.user c)) threads loop) (hr : r = .own p)
    (hlocked : Locks pcbs threads loop) {t : Tid} {th : Thread} (ht : (threads t).holds = some p)
    (hclosed : ch.closed = true) (hth : th.Stage p x true) (hp : p < nextPcb)
    (hset : x.recvInter = true ∨ x.err = true) :
    Switching p nextPcb x (Function.update chans r ch (.own p))
      (Function.update chans r ch (.user c)) (Function.update threads t th) loop := by
  rw [← hclosed] at hth
  obtain ⟨hthreads, hloop⟩ := hlocked.stages ht hth
  rw [hr, Function.update_self, Function.update_of_ne (by nofun)]
  exact ⟨hthreads, hloop, h.before, h.made, fun _ => ⟨hp, hset⟩, h.isOpen, h.unused,
    fun _ => hclosed⟩

/-- The channel made with `p` is closed by the loop. -/
theorem loopCloseOwn {chans : RecvChan → Chan Bytes} {r : RecvChan} {ch : Chan Bytes}
    (h : Switching p nextPcb x (chans (.own p)) (chans (.user c)) threads loop) (hr : r = .own p)
    (hlocked : Locks pcbs threads loop) {pc : LoopPc} (hloop : loop.holds = some p)
    (hclosed : ch.closed = true) (hpc : pc.Stage p x true) (hp : p < nextPcb)
    (hset : x.recvInter = true ∨ x.err = true) :
    Switching p nextPcb x (Function.update chans r ch (.own p))
      (Function.update chans r ch (.user c)) threads pc := by
  rw [hr, Function.update_self, Function.update_of_ne (by nofun)]
  refine ⟨fun u => Thread.stage_of_holds (hlocked.loopOthers hloop u), ?_, h.before, h.made,
    fun _ => ⟨hp, hset⟩, h.isOpen, h.unused, fun _ => hclosed⟩
  rwa [hclosed]

/-- `recvInter` is set. -/
theorem setInter (h : Switching p nextPcb (pcbs p) own user threads loop)
    (hlocked : Locks pcbs threads loop) {t : Tid} {d : Nat} {y : PCB}
    (ht : (threads t).holds = some p) (hinter : (pcbs p).recvInter = false)
    (hy : y.recvInter = true) (hqueue : y.recvQueued = (pcbs p).recvQueued) (hp : p < nextPcb) :
    Switching p nextPcb (Function.update pcbs p y p) own user
      (Function.update threads t (.intercept p d .closeOld)) loop := by
  have hown : y.recvQueued = .own p := hqueue.trans (h.before hinter)
  have hth : (Thread.intercept p d .closeOld).Stage p y own.closed := fun _ => ⟨hy, hown⟩
  obtain ⟨hthreads, hloop⟩ := hlocked.stages ht hth
  rw [Function.update_self]
  exact ⟨hthreads, hloop, fun _ => hown, fun _ => hp, fun ho => ⟨(h.closed ho).1, Or.inl hy⟩,
    h.isOpen, fun _ => h.unused (h.before hinter), fun hne => absurd hown hne⟩

/-- `c` comes in the place of the channel made with `p`. -/
theorem swap (h : Switching p nextPcb (pcbs p) own user threads loop)
    (hlocked : Locks pcbs threads loop) {t : Tid} {d : Nat} {y : PCB}
    (ht : (threads t).holds = some p) (hclosed : own.closed = true) (hy : y.recvInter = true)
    (hqueue : y.recvQueued = .user d) (hp : p < nextPcb) :
    Switching p nextPcb (Function.update pcbs p y p) own user
      (Function.update threads t (.intercept p d .unlock)) loop := by
  have hth : (Thread.intercept p d .unlock).Stage p y own.closed := fun _ => trivial
  obtain ⟨hthreads, hloop⟩ := hlocked.stages ht hth
  rw [Function.update_self]
  refine ⟨hthreads, hloop, ?_, fun _ => hp, fun _ => ⟨hp, Or.inl hy⟩, h.isOpen, ?_,
    fun _ => hclosed⟩
  · intro hr
    rw [hy] at hr
    cases hr
  · intro hq
    rw [hqueue] at hq
    cases hq

end Switching

end

theorem ReadStep.inSwitch {th : Tid} {q : PcbId} {len : Nat} {pc : ReadPc}
    (h : ReadStep s th q len pc t) (hs : s.InSwitch p c) : t.InSwitch p c := by
  have taken : ∀ {r chunk ch}, (s.chans r).recv = .done (chunk, ch) →
      Switching p s.nextPcb (s.pcbs p) (Function.update s.chans r ch (.own p))
        (Function.update s.chans r ch (.user c)) s.threads s.loop := by
    intro r chunk ch hrecv
    refine hs.setChan (Chan.closed_of_recv hrecv) ?_
    rintro rfl hqueue
    exact Chan.drained_of_recv hrecv (hs.unused hqueue)
  cases h with
  | intercepted _ => exact hs
  | nothing hrecv _ => exact (taken hrecv).setThread trivial
  | tooSmall hrecv _ => exact taken hrecv
  | chunk hrecv _ _ _ => exact (taken hrecv).setThread trivial
  | datagram hrecv _ _ _ => exact (taken hrecv).setThread trivial
  | _ => exact hs.setThread trivial

theorem WriteStep.inSwitch {th : Tid} {q : PcbId} {w : WriteId} {pc : WritePc}
    (h : WriteStep s th q w pc t) (hs : s.InSwitch p c) : t.InSwitch p c := by
  cases h with
  | lock _ => exact .setThread (hs.setPcb (by rfl) (by rfl) (by exact id)) trivial
  | wait _ => exact .setThread (hs.setPcb (by rfl) (by rfl) (by exact id)) trivial
  | unlock => exact .setThread (hs.setPcb (by rfl) (by rfl) (by exact id)) trivial
  | _ => exact hs.setThread trivial

/-- The step of `close` that finds `err` clear finds the channel open, or `Intercept` done. -/
theorem Switching.openAt {nextPcb : PcbId} {x : PCB} {own user : Chan Bytes}
    {threads : Tid → Thread} {loop : LoopPc} (h : Switching p nextPcb x own user threads loop)
    (herr : x.err = false) : x.recvInter = false → own.closed = false := by
  intro hinter
  cases ho : own.closed with
  | false => rfl
  | true =>
      rcases (h.closed ho).2 with hr | hr
      · rw [hinter] at hr
        cases hr
      · rw [herr] at hr
        cases hr

theorem CloseStep.inSwitch {th : Tid} {q : PcbId} {pc pc' : ClosePc}
    (hth : s.threads th = .close q pc) (h : CloseStep s (.goroutine th) q pc t (some pc'))
    (hs : s.InSwitch p c) (hused : s.UsedBy p c) (honce : s.ClosedOnce) (hlocked : s.Locked)
    (hknown : s.InUse) :
    Switching p t.nextPcb (t.pcbs p) (t.chans (.own p)) (t.chans (.user c))
      (Function.update t.threads th (.close q pc')) t.loop := by
  have hpos : inClose s.threads s.loop (.goroutine th) = some (q, pc) := by
    rw [inClose, hth]
    rfl
  cases h with
  | lock _ => exact .setThread (hs.setPcb (by rfl) (by rfl) (by exact id)) fun _ => trivial
  | setErr =>
      refine .setThread (hs.setPcb (by rfl) (by rfl) fun _ => rfl) ?_
      rintro rfl hinter
      refine hs.openAt (honce.setErr _ q hpos) ?_
      rwa [Function.update_self] at hinter
  | @closeRecv ch hinter hclose =>
      by_cases hq : q = p
      · subst hq
        have hholds : (s.threads th).holds = some q := by
          rw [hth]
          rfl
        exact hs.closeOwn (hs.before hinter) hlocked hholds (Chan.close_done hclose).2.2.2
          (fun _ => trivial) (hknown.inClose_lt hpos) (Or.inr (honce.erred _ q _ hpos rfl))
      · exact (hs.closeOther ((hused.queue q).ne hq)).setThread fun hqp => absurd hqp hq
  | closeWait _ _ => exact .setThread (hs.setPcb (by rfl) (by rfl) (by exact id)) fun _ => trivial
  | _ => exact hs.setThread fun _ => trivial

theorem CloseStep.loopInSwitch {q : PcbId} {pc pc' : ClosePc} {a e : Ptr} {k : ConnId}
    (hpc : s.loop = .close q pc a e k) (h : CloseStep s .loop q pc t (some pc'))
    (hs : s.InSwitch p c) (hused : s.UsedBy p c) (honce : s.ClosedOnce) (hlocked : s.Locked)
    (hknown : s.InUse) :
    Switching p t.nextPcb (t.pcbs p) (t.chans (.own p)) (t.chans (.user c)) t.threads
      (.close q pc' a e k) := by
  have hpos : inClose s.threads s.loop .loop = some (q, pc) := by
    rw [inClose, hpc]
    rfl
  cases h with
  | lock _ => exact .goto (hs.setPcb (by rfl) (by rfl) (by exact id)) fun _ => trivial
  | setErr =>
      refine .goto (hs.setPcb (by rfl) (by rfl) fun _ => rfl) ?_
      rintro rfl hinter
      refine hs.openAt (honce.setErr _ q hpos) ?_
      rwa [Function.update_self] at hinter
  | @closeRecv ch hinter hclose =>
      by_cases hq : q = p
      · subst hq
        have hholds : s.loop.holds = some q := by
          rw [hpc]
          rfl
        exact hs.loopCloseOwn (hs.before hinter) hlocked hholds (Chan.close_done hclose).2.2.2
          (fun _ => trivial) (hknown.inClose_lt hpos) (Or.inr (honce.erred _ q _ hpos rfl))
      · exact (hs.closeOther ((hused.queue q).ne hq)).goto fun hqp => absurd hqp hq
  | closeWait _ _ => exact .goto (hs.setPcb (by rfl) (by rfl) (by exact id)) fun _ => trivial
  | _ => exact hs.goto fun _ => trivial

theorem InterceptStep.inSwitch {th : Tid} {q : PcbId} {d : Nat} {pc : InterPc}
    (hth : s.threads th = .intercept q d pc) (h : InterceptStep s th q d pc t)
    (hs : s.InSwitch p c) (hused : s.UsedBy p c) (hlocked : s.Locked) (hknown : s.InUse) :
    t.InSwitch p c := by
  have hstage : (Thread.intercept q d pc).Stage p (s.pcbs p) (s.chans (.own p)).closed :=
    hth ▸ hs.threads th
  have hlt : q < s.nextPcb := by
    have := hknown.threads th
    rwa [hth] at this
  have hholds : (s.threads th).holds = (Thread.intercept q d pc).holds := by rw [hth]
  cases h with
  | lock _ => exact .setThread (hs.setPcb (by rfl) (by rfl) (by exact id)) fun _ => trivial
  | twice _ => exact .setThread (hs.setPcb (by rfl) (by rfl) (by exact id)) trivial
  | test hinter =>
      refine hs.setThread ?_
      rintro rfl
      exact hinter
  | set =>
      by_cases hq : q = p
      · subst hq
        exact hs.setInter hlocked hholds (hstage rfl) (by rfl) (by rfl) hlt
      · exact .setThread (hs.setOther hq) fun hqp => absurd hqp hq
  | @closeOld ch hclose =>
      by_cases hq : q = p
      · subst hq
        obtain ⟨hinter, hown⟩ := hstage rfl
        exact hs.closeOwn hown hlocked hholds (Chan.close_done hclose).2.2.2
          (fun _ => ⟨hinter, hown, rfl⟩) hlt (Or.inl hinter)
      · exact (hs.closeOther ((hused.queue q).ne hq)).setThread fun hqp => absurd hqp hq
  | closedOld _ => exact hs
  | swap =>
      by_cases hq : q = p
      · subst hq
        obtain ⟨hinter, hown, hclosed⟩ := hstage rfl
        exact hs.swap hlocked hholds hclosed (by exact hinter) (by rfl) hlt
      · exact .setThread (hs.setOther hq) fun hqp => absurd hqp hq
  | unlock => exact .setThread (hs.setPcb (by rfl) (by rfl) (by exact id)) trivial

theorem LoopStep.inSwitch {pc : LoopPc} (hpc : s.loop = pc) (h : LoopStep cfg s o pc t)
    (hs : s.InSwitch p c) (hused : s.UsedBy p c) (honce : s.ClosedOnce) (hlocked : s.Locked)
    (hknown : s.InUse) : t.InSwitch p c := by
  have huses : pc.Uses p c (s.pcbs p).recvQueued := hpc ▸ hused.loop
  have pushed : ∀ {q r ch data}, RecvChan.Loaded p c q r (s.pcbs p).recvQueued →
      (s.chans r).send data = .done ch →
      Switching p s.nextPcb (s.pcbs p) (Function.update s.chans r ch (.own p))
        (Function.update s.chans r ch (.user c)) s.threads s.loop := by
    intro q r ch data hloaded hsend
    refine hs.setChan (Chan.closed_of_send hsend) ?_
    rintro rfl hqueue
    have hnow := hloaded.2 (hloaded.1.mp rfl)
    rw [hqueue] at hnow
    cases hnow
  cases h with
  | sendEmpty _ => exact hs
  | udpSendEmpty _ => exact hs
  | sendFailed _ _ _ _ _ => exact .goto (hs.setPcb (by rfl) (by rfl) (by exact id)) trivial
  | sendTcp _ _ _ _ _ _ _ => exact .goto (hs.setPcb (by rfl) (by rfl) (by exact id)) trivial
  | pushClosed _ => exact hs
  | push hsend => exact (pushed huses hsend).goto trivial
  | pushUdp hsend => exact (pushed huses hsend).goto trivial
  | doneClosed _ => exact hs
  | done _ => exact .goto (hs.setPcb (by rfl) (by rfl) (by exact id)) trivial
  | close hclose =>
      have hs' := hclose.loopInSwitch hpc hs hused honce hlocked hknown
      exact hs'
  | closed => exact .goto (hs.setPcb (by rfl) (by rfl) (by exact id)) trivial
  | _ => exact hs.goto trivial

theorem CallbackStep.inSwitch {cb : Callback} (h : CallbackStep cfg s o cb t)
    (hs : s.InSwitch p c) : t.InSwitch p c := by
  cases h with
  | ignored => exact hs
  | accept _ _ => exact hs.newPcb
  | assertion => exact hs
  | recvEmpty _ _ _ _ _ _ => exact hs
  | fin _ _ _ _ _ => exact hs.goto fun _ => trivial
  | err _ _ _ _ _ => exact hs.goto fun _ => trivial
  | sent _ _ _ _ _ _ _ _ => exact .goto (hs.setPcb (by rfl) (by rfl) (by exact id)) trivial
  | udpEmpty => exact hs
  | udpNew _ _ => exact hs.newPcb.goto trivial
  | _ => exact hs.goto trivial

theorem Step.inSwitch (h : Step cfg s a t) (hs : s.InSwitch p c) (hused : s.UsedBy p c)
    (honce : s.ClosedOnce) (hlocked : s.Locked) (hknown : s.InUse) : t.InSwitch p c := by
  cases h with
  | callRead _ _ => exact hs.setThread trivial
  | callWrite _ _ => exact hs.setThread trivial
  | callClose _ _ => exact hs.setThread fun _ => trivial
  | callIntercept _ _ => exact hs.setThread fun _ => trivial
  | read _ h => exact h.inSwitch hs
  | write _ h => exact h.inSwitch hs
  | close hth h => exact h.inSwitch hth hs hused honce hlocked hknown
  | closed _ => exact .setThread (hs.setPcb (by rfl) (by rfl) (by exact id)) trivial
  | closePost _ _ => exact hs.setThread trivial
  | intercept hth h => exact h.inSwitch hth hs hused hlocked hknown
  | userRecv hrecv =>
      refine hs.setChan (Chan.closed_of_recv hrecv) ?_
      rintro ⟨⟩ hqueue
      exact Chan.drained_of_recv hrecv (hs.unused hqueue)
  | takeRecved _ _ => exact hs.goto trivial
  | takeSend _ _ => exact hs.goto trivial
  | takeInput _ _ => exact hs.goto trivial
  | loop hpc h => exact h.inSwitch hpc hs hused honce hlocked hknown
  | callback _ h => exact h.inSwitch hs
  | _ => exact hs

/-- A PCB that is not made was not switched. -/
theorem Sys.InSwitch.fresh (h : s.InSwitch p c) (hp : s.nextPcb = p) :
    (s.pcbs p).recvQueued = .own p := by
  refine h.before ?_
  cases hr : (s.pcbs p).recvInter with
  | false => rfl
  | true =>
      rw [← hp] at h hr
      exact absurd (h.made hr) (Nat.lt_irrefl _)

/-- What a run keeps of the channels of a PCB that is intercepted with `c`. -/
structure Sys.Switches (s : Sys) (p : PcbId) (c : Nat) : Prop where
  order : s.InOrder
  once : s.ClosedOnce
  used : s.UsedBy p c
  switch : s.InSwitch p c

theorem run_switches {tr : List (Sys × Act)} (hrun : (bridge cfg).Run tr s)
    (hwith : Machine.Meets (InterceptsWith p c) tr) : s.Switches p c := by
  have known : ∀ {s}, (bridge cfg).Reachable s → s.InOrder ∧ s.ClosedOnce ∧ s.Locked :=
    fun h => ⟨reachable_inOrder h, reachable_closedOnce h, reachable_locked h⟩
  have hboth : s.UsedBy p c ∧ s.InSwitch p c := by
    refine hrun.invariant_under (I := fun s => s.UsedBy p c ∧ s.InSwitch p c) hwith known ?_ ?_
    · constructor
      · exact ⟨fun _ => rfl, fun _ => trivial, trivial⟩
      · refine ⟨fun _ => trivial, trivial, fun _ => rfl, ?_, ?_, rfl, fun _ => rfl, ?_⟩
        · exact fun hr => absurd hr nofun
        · exact fun hr => absurd hr nofun
        · exact fun hne => absurd rfl hne
    · rintro s a t ⟨horder, honce, hlocked⟩ _ ⟨hused, hs⟩ hwith hstep
      have hcases := step_cases horder hstep
      exact ⟨hcases.usedBy hused hs.fresh hwith,
        hcases.inSwitch hs hused honce hlocked horder.known⟩
  exact ⟨reachable_inOrder hrun.reachable, reachable_closedOnce hrun.reachable, hboth.1, hboth.2⟩

end LwipCs
