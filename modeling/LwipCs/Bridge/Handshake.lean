import LwipCs.Bridge.CloseOnce

/-!
# The handshake between `Write` and the loop

A TCP `Write` that waits has exactly one thing on its way: its entry in
`sendQueue` or in the hands of the loop, a count in `sendCount`, a token the sent
callback is about to send, or a token in `sendWait`. A PCB on which no `Write`
waits has none. So `sendCount` and the tokens never exceed one, and the loop never
blocks on `sendWait` nor finds it closed.
-/

namespace LwipCs

open Interleave

/-- The `Write` with which a goroutine waits for `sendWait`. -/
def Thread.waitsOn : Thread → Option (PcbId × WriteId)
  | .write p w .wait => some (p, w)
  | _ => none

/-- The `Write` of `w` waits on `p`. -/
def Waits (threads : Tid → Thread) (p : PcbId) (w : WriteId) : Prop :=
  ∃ t, (threads t).waitsOn = some (p, w)

/-- The entry whose `Send` the loop runs. -/
def LoopPc.inHand : LoopPc → List SendEntry
  | .send entry | .udpSend entry => [entry]
  | _ => []

/-- Whether the sent callback is about to send a token to a PCB. -/
def LoopPc.grants : LoopPc → PcbId → Nat
  | .done q _ _ _, p => if q = p then 1 else 0
  | _, _ => 0

/-- The buffers posted for `p` whose `Send` has not run. -/
def pendingOn (p : PcbId) (entries : List SendEntry) : List WriteId :=
  (entries.filter (·.pcb = p)).map (·.data)

/-- What the sent callback or a waiting `Write` will find. -/
def PCB.live (x : PCB) : Nat := x.sendCount + x.sendWait.buf.length

/-- The handshake on one TCP PCB. -/
structure Handshake (x : PCB) (waits : WriteId → Prop) (pending : List WriteId)
    (grants : Nat) : Prop where
  idle : x.err = false → (∀ w, ¬waits w) → pending = [] ∧ x.live + grants = 0
  waiting : x.err = false → ∀ w, waits w →
    (pending = [w] ∧ x.live + grants = 0) ∨ (pending = [] ∧ x.live + grants = 1)
  closed : x.err = true → x.live + grants = 0
  cap : x.sendWait.cap = 1

/-- The handshake on every TCP PCB. -/
def Handshakes (nextPcb : PcbId) (pcbs : PcbId → PCB) (threads : Tid → Thread)
    (entries : List SendEntry) (grants : PcbId → Nat) : Prop :=
  ∀ p, Made nextPcb pcbs .tcp p →
    Handshake (pcbs p) (Waits threads p) (pendingOn p entries) (grants p)

/-- `Handshakes` of a state of the system. -/
abbrev Sys.Shaken (s : Sys) : Prop :=
  Handshakes s.nextPcb s.pcbs s.threads (s.loop.inHand ++ s.sendQueue.buf) s.loop.grants

section

variable {nextPcb : PcbId} {pcbs : PcbId → PCB} {threads threads' : Tid → Thread}
variable {entries entries' : List SendEntry} {grants grants' : PcbId → Nat} {loop : LoopPc}
variable {p q : PcbId} {w : WriteId}

@[simp] theorem pendingOn_nil : pendingOn p [] = [] := rfl

@[simp] theorem pendingOn_append (a b : List SendEntry) :
    pendingOn p (a ++ b) = pendingOn p a ++ pendingOn p b := by
  simp [pendingOn]

@[simp] theorem pendingOn_self (rest : List SendEntry) :
    pendingOn p (⟨p, w⟩ :: rest) = w :: pendingOn p rest := by
  simp [pendingOn]

theorem pendingOn_of_ne (h : q ≠ p) (rest : List SendEntry) :
    pendingOn p (⟨q, w⟩ :: rest) = pendingOn p rest := by
  simp [pendingOn, h]

/-- Nothing is pending on a PCB no entry names. -/
theorem pendingOn_eq_nil (h : ∀ entry ∈ entries, entry.pcb ≠ p) : pendingOn p entries = [] := by
  simpa [pendingOn] using h

theorem mem_pendingOn : w ∈ pendingOn p entries ↔ ⟨p, w⟩ ∈ entries := by
  constructor
  · intro hw
    obtain ⟨⟨q, v⟩, hentry, rfl⟩ := List.mem_map.mp hw
    obtain ⟨hmem, hq⟩ := List.mem_filter.mp hentry
    obtain rfl : q = p := of_decide_eq_true hq
    exact hmem
  · intro hentry
    exact List.mem_map.mpr ⟨_, List.mem_filter.mpr ⟨hentry, decide_eq_true rfl⟩, rfl⟩

theorem waits_setThread {t : Tid} {th : Thread} (h : th.waitsOn = (threads t).waitsOn) :
    Waits (Function.update threads t th) = Waits threads := by
  funext p w
  apply propext
  constructor
  · rintro ⟨u, hu⟩
    by_cases hut : u = t
    · subst hut
      rw [Function.update_self, h] at hu
      exact ⟨u, hu⟩
    · rw [Function.update_of_ne hut] at hu
      exact ⟨u, hu⟩
  · rintro ⟨u, hu⟩
    by_cases hut : u = t
    · subst hut
      exact ⟨u, by rwa [Function.update_self, h]⟩
    · exact ⟨u, by rwa [Function.update_of_ne hut]⟩

/-- A goroutine that waits on `p` at most matters to no other PCB. -/
theorem waits_setThread_of_ne {t : Tid} {th : Thread} (hq : q ≠ p)
    (hnew : ∀ w, th.waitsOn = some (q, w) → q = p)
    (hold : ∀ w, (threads t).waitsOn = some (q, w) → q = p) :
    Waits (Function.update threads t th) q = Waits threads q := by
  funext w
  apply propext
  constructor
  · rintro ⟨u, hu⟩
    by_cases hut : u = t
    · subst hut
      rw [Function.update_self] at hu
      exact absurd (hnew w hu) hq
    · rw [Function.update_of_ne hut] at hu
      exact ⟨u, hu⟩
  · rintro ⟨u, hu⟩
    by_cases hut : u = t
    · subst hut
      exact absurd (hold w hu) hq
    · exact ⟨u, by rwa [Function.update_of_ne hut]⟩

/-- A `Write` that waits holds the lock of its PCB. -/
theorem Thread.holds_of_waitsOn {th : Thread} (h : th.waitsOn = some (p, w)) :
    th.holds = some p := by
  cases th with
  | write q v pc =>
      cases pc with
      | wait =>
          cases h
          rfl
      | _ => cases h
  | _ => cases h

/-- A goroutine that holds the lock of a PCB alone decides who waits on it. -/
theorem Locks.waits_iff (h : Locks pcbs threads loop) {t : Tid}
    (hown : (threads t).holds = some p) :
    Waits threads p w ↔ (threads t).waitsOn = some (p, w) := by
  constructor
  · rintro ⟨u, hu⟩
    rw [h.eq_of_holds hown (Thread.holds_of_waitsOn hu)]
    exact hu
  · intro ht
    exact ⟨t, ht⟩

namespace Handshakes

/-- A step that concerns one PCB. -/
theorem change (h : Handshakes nextPcb pcbs threads entries grants) {x : PCB}
    (hother : ∀ q, q ≠ p → Waits threads' q = Waits threads q ∧
      pendingOn q entries' = pendingOn q entries ∧ grants' q = grants q)
    (hp : Handshake (pcbs p) (Waits threads p) (pendingOn p entries) (grants p) →
      Handshake x (Waits threads' p) (pendingOn p entries') (grants' p))
    (htype : x.type = (pcbs p).type) :
    Handshakes nextPcb (Function.update pcbs p x) threads' entries' grants' := by
  intro q hq
  by_cases hqp : q = p
  · subst hqp
    rw [Function.update_self]
    refine hp (h q ⟨hq.1, ?_⟩)
    have := hq.2
    rwa [Function.update_self, htype] at this
  · obtain ⟨hwaits, hpending, hgrants⟩ := hother q hqp
    have hold : Made nextPcb pcbs .tcp q := by
      have := hq.2
      rw [Function.update_of_ne hqp] at this
      exact ⟨hq.1, this⟩
    rw [Function.update_of_ne hqp, hwaits, hpending, hgrants]
    exact h q hold

/-- A step that concerns one PCB without changing it. -/
theorem move (h : Handshakes nextPcb pcbs threads entries grants)
    (hother : ∀ q, q ≠ p → Waits threads' q = Waits threads q ∧
      pendingOn q entries' = pendingOn q entries ∧ grants' q = grants q)
    (hp : Handshake (pcbs p) (Waits threads p) (pendingOn p entries) (grants p) →
      Handshake (pcbs p) (Waits threads' p) (pendingOn p entries') (grants' p)) :
    Handshakes nextPcb pcbs threads' entries' grants' := by
  have := h.change hother hp rfl
  rwa [Function.update_eq_self] at this

/-- A step that changes no field the handshake is about. -/
theorem setPcb (h : Handshakes nextPcb pcbs threads entries grants) {x : PCB}
    (htype : x.type = (pcbs p).type) (herr : x.err = (pcbs p).err)
    (hcount : x.sendCount = (pcbs p).sendCount) (hwait : x.sendWait = (pcbs p).sendWait) :
    Handshakes nextPcb (Function.update pcbs p x) threads entries grants := by
  refine h.change (fun _ _ => ⟨rfl, rfl, rfl⟩) ?_ htype
  rintro ⟨hidle, hwaiting, hclosed, hcap⟩
  have hlive : x.live = (pcbs p).live := by rw [PCB.live, PCB.live, hcount, hwait]
  rw [← herr, ← hlive] at hidle hwaiting hclosed
  exact ⟨hidle, hwaiting, hclosed, by rwa [hwait]⟩

theorem setThread (h : Handshakes nextPcb pcbs threads entries grants) {t : Tid} {th : Thread}
    (hth : th.waitsOn = (threads t).waitsOn) :
    Handshakes nextPcb pcbs (Function.update threads t th) entries grants := by
  rw [Handshakes, waits_setThread hth]
  exact h

/-- A PCB just made, which nothing names yet. -/
theorem newPcb (h : Handshakes nextPcb pcbs threads entries grants) {flow : Flow}
    (hthreads : ∀ t, (threads t).Ok nextPcb pcbs)
    (hentries : ∀ entry ∈ entries, entry.pcb < nextPcb) (hgrants : grants nextPcb = 0) :
    Handshakes (nextPcb + 1) (Function.update pcbs nextPcb (newPCB nextPcb flow)) threads entries
      grants := by
  intro q hq
  rcases Nat.lt_succ_iff_lt_or_eq.mp hq.1 with hlt | rfl
  · have hne : q ≠ nextPcb := Nat.ne_of_lt hlt
    have hold := hq.2
    rw [Function.update_of_ne hne] at hold ⊢
    exact h q ⟨hlt, hold⟩
  · rw [Function.update_self, pendingOn_eq_nil fun entry he => Nat.ne_of_lt (hentries entry he)]
    have hnone : ∀ w, ¬Waits threads q w := by
      rintro w ⟨t, ht⟩
      exact Nat.lt_irrefl _ ((hthreads t).of_holds (Thread.holds_of_waitsOn ht))
    refine ⟨fun _ _ => ⟨rfl, ?_⟩, fun _ w hw => absurd hw (hnone w), nofun, rfl⟩
    rw [hgrants]
    rfl

/-- The loop moves between places that have no entry in hand and grant nothing. -/
theorem goto {rest : List SendEntry} {pc pc' : LoopPc}
    (h : Handshakes nextPcb pcbs threads (pc.inHand ++ rest) pc.grants)
    (hhand : pc'.inHand = pc.inHand) (hgrants : pc'.grants = pc.grants) :
    Handshakes nextPcb pcbs threads (pc'.inHand ++ rest) pc'.grants := by
  rw [hhand, hgrants]
  exact h

/-- `Send` discards the entry of a PCB that is closed, or is not TCP. -/
theorem discard {rest : List SendEntry}
    (h : Handshakes nextPcb pcbs threads (⟨p, w⟩ :: rest) grants)
    (hp : Made nextPcb pcbs .tcp p → (pcbs p).err = true) :
    Handshakes nextPcb pcbs threads rest grants := by
  intro q hq
  by_cases hqp : p = q
  · subst hqp
    have herr := hp hq
    obtain ⟨_, _, hclosed, hcap⟩ := h p hq
    refine ⟨?_, ?_, hclosed, hcap⟩
    · intro hopen
      rw [herr] at hopen
      cases hopen
    · intro hopen
      rw [herr] at hopen
      cases hopen
  · have := h q hq
    rwa [pendingOn_of_ne hqp] at this

/-- The entry of an open PCB belongs to the one `Write` that waits. -/
theorem entry {rest : List SendEntry}
    (h : Handshakes nextPcb pcbs threads (⟨p, w⟩ :: rest) grants) (hp : Made nextPcb pcbs .tcp p)
    (hopen : (pcbs p).err = false) :
    Waits threads p w ∧ (∀ v, Waits threads p v → v = w) ∧ pendingOn p rest = [] ∧
      (pcbs p).live + grants p = 0 := by
  obtain ⟨hidle, hwaiting, _, _⟩ := h p hp
  rw [pendingOn_self] at hidle hwaiting
  have hall : ∀ v, Waits threads p v → w = v ∧ pendingOn p rest = [] ∧
      (pcbs p).live + grants p = 0 := by
    intro v hv
    rcases hwaiting hopen v hv with ⟨hpending, hlive⟩ | ⟨hpending, _⟩
    · obtain ⟨hwv, hrest⟩ := List.cons.inj hpending
      exact ⟨hwv, hrest, hlive⟩
    · cases hpending
  have hsome : ∃ v, Waits threads p v := by
    by_contra hnone
    have := (hidle hopen (not_exists.mp hnone)).1
    cases this
  obtain ⟨v, hv⟩ := hsome
  obtain ⟨rfl, hrest, hlive⟩ := hall v hv
  exact ⟨hv, fun u hu => (hall u hu).1.symm, hrest, hlive⟩

/-- `Send` counts the entry of an open PCB. -/
theorem count {rest : List SendEntry}
    (h : Handshakes nextPcb pcbs threads (⟨p, w⟩ :: rest) grants) (hp : Made nextPcb pcbs .tcp p)
    (hopen : (pcbs p).err = false) :
    Handshakes nextPcb
      (Function.update pcbs p { pcbs p with sendCount := (pcbs p).sendCount + 1 }) threads rest
      grants := by
  obtain ⟨hwaits, hsame, hrest, hlive⟩ := h.entry hp hopen
  refine h.change ?_ ?_ rfl
  · intro q hq
    exact ⟨rfl, (pendingOn_of_ne hq.symm rest).symm, rfl⟩
  · rintro ⟨_, _, _, hcap⟩
    simp only [PCB.live] at hlive
    refine ⟨?_, ?_, ?_, hcap⟩
    · intro _ hnone
      exact absurd hwaits (hnone w)
    · intro _ v _
      refine Or.inr ⟨hrest, ?_⟩
      simp only [PCB.live]
      omega
    · intro herr
      rw [show (pcbs p).err = true from herr] at hopen
      cases hopen

/-- A count or a token on its way shows that a `Write` waits with nothing pending. -/
theorem released (h : Handshakes nextPcb pcbs threads entries grants)
    (hp : Made nextPcb pcbs .tcp p) (hlive : 0 < (pcbs p).live + grants p) :
    (pcbs p).err = false ∧ (∃ v, Waits threads p v) ∧ pendingOn p entries = [] ∧
      (pcbs p).live + grants p = 1 := by
  obtain ⟨hidle, hwaiting, hclosed, _⟩ := h p hp
  have hopen : (pcbs p).err = false := by
    cases herr : (pcbs p).err with
    | false => rfl
    | true =>
        have := hclosed herr
        omega
  have hsome : ∃ v, Waits threads p v := by
    by_contra hnone
    have := (hidle hopen (not_exists.mp hnone)).2
    omega
  obtain ⟨v, hv⟩ := hsome
  rcases hwaiting hopen v hv with ⟨_, hzero⟩ | ⟨hpending, hone⟩
  · omega
  · exact ⟨hopen, ⟨v, hv⟩, hpending, hone⟩

/-- A count becomes a token on its way, or a token on its way one in `sendWait`. -/
theorem convert (h : Handshakes nextPcb pcbs threads entries grants)
    (hp : Made nextPcb pcbs .tcp p) {x : PCB} (hlive : 0 < (pcbs p).live + grants p)
    (hsame : x.live + grants' p = (pcbs p).live + grants p)
    (hother : ∀ q, q ≠ p → grants' q = grants q) (hcap : x.sendWait.cap = (pcbs p).sendWait.cap)
    (htype : x.type = (pcbs p).type) (herr : x.err = (pcbs p).err) :
    Handshakes nextPcb (Function.update pcbs p x) threads entries grants' := by
  obtain ⟨hopen, ⟨v, hv⟩, hpending, hone⟩ := h.released hp hlive
  refine h.change (fun q hq => ⟨rfl, rfl, hother q hq⟩) ?_ htype
  rintro ⟨_, _, _, hcap'⟩
  refine ⟨?_, ?_, ?_, hcap.trans hcap'⟩
  · intro _ hnone
    exact absurd hv (hnone v)
  · intro _ u _
    exact Or.inr ⟨hpending, hsame.trans hone⟩
  · intro hclosed
    rw [herr, hopen] at hclosed
    cases hclosed

end Handshakes

end

variable {cfg : Config} {s t : Sys} {o : Outcomes}

theorem ReadStep.shaken {th : Tid} {p : PcbId} {len : Nat} {pc : ReadPc}
    (hth : s.threads th = .read p len pc) (h : ReadStep s th p len pc t) (hs : s.Shaken) :
    t.Shaken := by
  have hidle : (s.threads th).waitsOn = none := by rw [hth]; rfl
  cases h with
  | intercepted _ => exact hs
  | tooSmall _ _ => exact hs
  | _ => exact hs.setThread hidle.symm

/-- A `Write` that holds the lock posts its buffer and begins to wait. -/
theorem enqueue_shaken {th : Tid} {p : PcbId} {w : WriteId} {q : Chan SendEntry}
    (hth : s.threads th = .write p w .enqueue) (hsend : s.sendQueue.send ⟨p, w⟩ = .done q)
    (hs : s.Shaken) (hlocked : s.Locked) :
    Handshakes s.nextPcb s.pcbs (Function.update s.threads th (.write p w .wait))
      (s.loop.inHand ++ q.buf) s.loop.grants := by
  obtain ⟨_, _, hbuf, _⟩ := Chan.send_done hsend
  have hown : (s.threads th).holds = some p := by rw [hth]; rfl
  have hbefore : ∀ v, ¬Waits s.threads p v := by
    intro v hv
    rw [hlocked.waits_iff hown, hth] at hv
    cases hv
  have hafter : ∀ v, Waits (Function.update s.threads th (.write p w .wait)) p v ↔ v = w := by
    intro v
    constructor
    · rintro ⟨u, hu⟩
      by_cases hut : u = th
      · subst hut
        rw [Function.update_self] at hu
        cases hu
        rfl
      · rw [Function.update_of_ne hut] at hu
        exact absurd ⟨u, hu⟩ (hbefore v)
    · rintro rfl
      exact ⟨th, by rw [Function.update_self]; rfl⟩
  refine hs.move (p := p) ?_ ?_
  · intro q' hq'
    refine ⟨waits_setThread_of_ne hq' ?_ ?_, ?_, rfl⟩
    · rintro v ⟨⟩
      rfl
    · intro v hv
      rw [hth] at hv
      cases hv
    · rw [hbuf, ← List.append_assoc, pendingOn_append, pendingOn_of_ne hq'.symm, pendingOn_nil,
        List.append_nil]
  · rintro ⟨hidle, hwaiting, hclosed, hcap⟩
    refine ⟨?_, ?_, hclosed, hcap⟩
    · intro _ hnone
      exact absurd ((hafter w).mpr rfl) (hnone w)
    · intro hopen v hv
      obtain ⟨hpending, hlive⟩ := hidle hopen hbefore
      rw [(hafter v).mp hv, hbuf, ← List.append_assoc, pendingOn_append, hpending, pendingOn_self]
      exact Or.inl ⟨rfl, hlive⟩

/-- A waiting `Write` finds a token, or `sendWait` closed. -/
theorem wait_shaken {th : Tid} {p : PcbId} {w : WriteId} {r : Option Unit} {ch : Chan Unit}
    (hth : s.threads th = .write p w .wait)
    (hrecv : (s.pcbs p).sendWait.recv = .done (r, ch)) (hs : s.Shaken) (hlocked : s.Locked)
    (honce : s.ClosedOnce) :
    Handshakes s.nextPcb (Function.update s.pcbs p { s.pcbs p with sendWait := ch })
      (Function.update s.threads th (.write p w .unlock)) (s.loop.inHand ++ s.sendQueue.buf)
      s.loop.grants := by
  have hown : (s.threads th).holds = some p := by rw [hth]; rfl
  have hwaits : Waits s.threads p w := ⟨th, by rw [hth]; rfl⟩
  have hafter : ∀ v, ¬Waits (Function.update s.threads th (.write p w .unlock)) p v := by
    rintro v ⟨u, hu⟩
    by_cases hut : u = th
    · subst hut
      rw [Function.update_self] at hu
      cases hu
    · rw [Function.update_of_ne hut] at hu
      exact hut (hlocked.eq_of_holds (Thread.holds_of_waitsOn hu) hown)
  refine hs.change ?_ ?_ rfl
  · intro q hq
    refine ⟨waits_setThread_of_ne hq nofun ?_, rfl, rfl⟩
    intro v hv
    rw [hth] at hv
    cases hv
    rfl
  · rintro ⟨_, hwaiting, hclosed, hcap⟩
    have hlive : (s.pcbs p).live = (s.pcbs p).sendCount + (s.pcbs p).sendWait.buf.length := rfl
    have hlive' : ({ s.pcbs p with sendWait := ch } : PCB).live =
        (s.pcbs p).sendCount + ch.buf.length := rfl
    rcases Chan.recv_done hrecv with ⟨_, _, hbuf, hcap', _⟩ | ⟨_, rfl, _, hchclosed⟩
    · rw [hbuf, List.length_cons] at hlive
      refine ⟨?_, fun _ v hv => absurd hv (hafter v), ?_, hcap'.trans hcap⟩
      · intro hopen _
        rcases hwaiting hopen w hwaits with ⟨_, hzero⟩ | ⟨hpending, hone⟩
        · omega
        · exact ⟨hpending, by omega⟩
      · intro herr
        have := hclosed herr
        omega
    · have herr := honce.closed p hchclosed
      refine ⟨?_, fun _ v hv => absurd hv (hafter v), fun _ => hclosed herr, hcap⟩
      intro hopen
      rw [herr] at hopen
      cases hopen

theorem WriteStep.shaken {th : Tid} {p : PcbId} {w : WriteId} {pc : WritePc}
    (hth : s.threads th = .write p w pc) (h : WriteStep s th p w pc t) (hs : s.Shaken)
    (hlocked : s.Locked) (honce : s.ClosedOnce) (hknown : s.InUse) : t.Shaken := by
  have hwaits : (s.threads th).waitsOn = (Thread.write p w pc).waitsOn := by rw [hth]
  have hok : Thread.Ok s.nextPcb s.pcbs (.write p w pc) := hth ▸ hknown.threads th
  cases h with
  | lock _ => exact .setThread (hs.setPcb (by rfl) (by rfl) (by rfl) (by rfl)) hwaits.symm
  | enqueue hsend => exact enqueue_shaken hth hsend hs hlocked
  | wait hrecv => exact wait_shaken hth hrecv hs hlocked honce
  | unlock => exact .setThread (hs.setPcb (by rfl) (by rfl) (by rfl) (by rfl)) hwaits.symm
  | @post q hsend =>
      obtain ⟨_, _, hbuf, _⟩ := Chan.send_done hsend
      refine .setThread ?_ hwaits.symm
      intro r hr
      have hne : p ≠ r := by
        rintro rfl
        have := hok.2.symm.trans hr.2
        cases this
      have : pendingOn r (s.loop.inHand ++ q.buf) =
          pendingOn r (s.loop.inHand ++ s.sendQueue.buf) := by
        rw [hbuf, ← List.append_assoc, pendingOn_append, pendingOn_of_ne hne, pendingOn_nil,
          List.append_nil]
      rw [this]
      exact hs r hr
  | _ => exact hs.setThread hwaits.symm

/-- One step of `PCB.close`: `err` is set only while no `Write` waits. -/
theorem CloseStep.shaken {who : Actor} {p : PcbId} {pc : ClosePc} {next : Option ClosePc}
    (hpos : inClose s.threads s.loop who = some (p, pc)) (h : CloseStep s who p pc t next)
    (hs : s.Shaken) (hlocked : s.Locked) (honce : s.ClosedOnce) :
    Handshakes t.nextPcb t.pcbs t.threads (t.loop.inHand ++ t.sendQueue.buf) t.loop.grants := by
  cases h with
  | lock _ => exact hs.setPcb rfl rfl rfl rfl
  | setErr =>
      have hown := holdsBy_of_inClose hpos nofun
      have hnone : ∀ w, ¬Waits s.threads p w := by
        rintro w ⟨u, hu⟩
        have hwho : who = .goroutine u :=
          hlocked.unique hown (show holdsBy s.threads s.loop (.goroutine u) = some p from
            Thread.holds_of_waitsOn hu)
        subst hwho
        have hclose : (s.threads u).inClose = some (p, .setErr) := hpos
        generalize s.threads u = th at hclose hu
        cases th with
        | close q pc => cases hu
        | _ => cases hclose
      refine hs.change (fun _ _ => ⟨rfl, rfl, rfl⟩) ?_ rfl
      rintro ⟨hidle, _, _, hcap⟩
      obtain ⟨_, hlive⟩ := hidle (honce.setErr who p hpos) hnone
      exact ⟨nofun, nofun, fun _ => hlive, hcap⟩
  | @closeWait ch _ hclose =>
      obtain ⟨_, hbuf, hcap', _⟩ := Chan.close_done hclose
      have hlive : ({ s.pcbs p with sendWait := ch } : PCB).live = (s.pcbs p).live := by
        rw [PCB.live, PCB.live, hbuf]
      refine hs.change (fun _ _ => ⟨rfl, rfl, rfl⟩) ?_ rfl
      rintro ⟨hidle, hwaiting, hclosed, hcap⟩
      refine ⟨?_, ?_, ?_, hcap'.trans hcap⟩
      · rwa [hlive]
      · rwa [hlive]
      · rwa [hlive]
  | unlock => exact hs.setPcb rfl rfl rfl rfl
  | _ => exact hs

theorem InterceptStep.shaken {th : Tid} {p : PcbId} {c : Nat} {pc : InterPc}
    (hth : s.threads th = .intercept p c pc) (h : InterceptStep s th p c pc t) (hs : s.Shaken) :
    t.Shaken := by
  have hidle : (s.threads th).waitsOn = none := by rw [hth]; rfl
  cases h with
  | lock _ => exact .setThread (hs.setPcb (by rfl) (by rfl) (by rfl) (by rfl)) hidle.symm
  | twice _ => exact .setThread (hs.setPcb (by rfl) (by rfl) (by rfl) (by rfl)) hidle.symm
  | set => exact .setThread (hs.setPcb (by rfl) (by rfl) (by rfl) (by rfl)) hidle.symm
  | closedOld _ => exact hs
  | swap => exact .setThread (hs.setPcb (by rfl) (by rfl) (by rfl) (by rfl)) hidle.symm
  | unlock => exact .setThread (hs.setPcb (by rfl) (by rfl) (by rfl) (by rfl)) hidle.symm
  | _ => exact hs.setThread hidle.symm

theorem LoopStep.shaken {pc : LoopPc} (hpc : s.loop = pc) (h : LoopStep cfg s o pc t)
    (hs : s.Shaken) (hlocked : s.Locked) (honce : s.ClosedOnce) (hknown : s.InUse) :
    t.Shaken := by
  have hok : pc.Ok s.nextPcb s.pcbs := hpc ▸ hknown.loop
  have hs' : Handshakes s.nextPcb s.pcbs s.threads (pc.inHand ++ s.sendQueue.buf) pc.grants :=
    hpc ▸ hs
  cases h with
  | dropped herr => exact hs'.discard fun _ => herr
  | sendEmpty _ => exact hs
  | udpSendEmpty _ => exact hs
  | sendFailed herr htype _ _ _ => exact hs'.count ⟨hok, htype⟩ herr
  | sendTcp herr htype _ _ _ _ _ => exact hs'.count ⟨hok, htype⟩ herr
  | sendUdp htype _ _ =>
      refine hs'.discard ?_
      rintro ⟨_, htcp⟩
      rw [htype] at htcp
      cases htcp
  | sendUdpFailed htype _ _ =>
      refine hs'.discard ?_
      rintro ⟨_, htcp⟩
      rw [htype] at htcp
      cases htcp
  | pushClosed _ => exact hs
  | doneClosed _ => exact hs
  | @done p a e k ch hsend =>
      obtain ⟨_, _, hbuf, hcap, _⟩ := Chan.send_done hsend
      have hgrant : (LoopPc.done p a e k).grants p = 1 := if_pos rfl
      refine Handshakes.convert hs' hok ?_ ?_ ?_ hcap rfl rfl
      · omega
      · rw [hgrant]
        simp only [PCB.live, hbuf, List.length_append, List.length_singleton, LoopPc.grants]
        omega
      · intro q hq
        exact (if_neg hq.symm).symm
  | @close p pc pc' a e k s' hclose =>
      have hpos : inClose s.threads s.loop .loop = some (p, pc) := by
        rw [hpc]
        rfl
      have hs' := hclose.shaken hpos hs hlocked honce
      have hloop : s'.loop = .close p pc a e k := by rw [(hclose.inUse hknown).2.2.2, hpc]
      rw [hloop] at hs'
      exact hs'.goto rfl rfl
  | closed => exact .setPcb hs' rfl rfl rfl rfl
  | _ => exact hs'

theorem CallbackStep.shaken {cb : Callback} (hloop : s.loop = .lwip)
    (h : CallbackStep cfg s o cb t) (hs : s.Shaken) (hin : s.InOrder) : t.Shaken := by
  have hs' : Handshakes s.nextPcb s.pcbs s.threads s.sendQueue.buf LoopPc.lwip.grants := by
    have := hs
    rwa [Sys.Shaken, hloop] at this
  cases h with
  | ignored => exact hs
  | accept _ _ =>
      simp only [Sys.Shaken, hloop]
      exact hs'.newPcb hin.known.threads hin.known.sends rfl
  | assertion => exact hs
  | recvEmpty _ _ _ _ _ _ => exact hs
  | @sent a e p x es len ha harg hp hes hconn hidle herr hcount =>
      obtain ⟨hlt, htype, _⟩ := hin.table.known _ _ hp
      refine Handshakes.convert (p := p) hs' ⟨hlt, htype⟩ ?_ ?_ ?_ rfl rfl rfl
      · simp only [PCB.live]
        omega
      · have hgrant : (LoopPc.done p a e es.conn).grants p = 1 := if_pos rfl
        rw [hgrant]
        simp only [PCB.live, LoopPc.grants]
        omega
      · intro q hq
        exact if_neg hq.symm
  | udpEmpty => exact hs
  | udpNew _ _ => exact hs'.newPcb hin.known.threads hin.known.sends rfl
  | _ => exact hs'

theorem Step.shaken {a : Act} (h : Step cfg s a t) (hs : s.Shaken) (hin : s.InOrder)
    (hlocked : s.Locked) (honce : s.ClosedOnce) : t.Shaken := by
  have select : ∀ {pc : LoopPc}, s.loop = .select → pc.inHand = [] →
      pc.grants = LoopPc.select.grants →
      Handshakes s.nextPcb s.pcbs s.threads (pc.inHand ++ s.sendQueue.buf) pc.grants := by
    intro pc hloop hhand hgrants
    rw [Sys.Shaken, hloop] at hs
    exact hs.goto hhand hgrants
  cases h with
  | callRead hidle _ => exact hs.setThread (by rw [hidle]; rfl)
  | callWrite hidle _ => exact hs.setThread (by rw [hidle]; rfl)
  | callClose hidle _ => exact hs.setThread (by rw [hidle]; rfl)
  | callIntercept hidle _ => exact hs.setThread (by rw [hidle]; rfl)
  | read hth h => exact h.shaken hth hs
  | write hth h => exact h.shaken hth hs hlocked honce hin.known
  | @close th p pc pc' s' hth h =>
      have hpos : inClose s.threads s.loop (.goroutine th) = some (p, pc) := by
        rw [inClose, hth]
        rfl
      refine (h.shaken hpos hs hlocked honce).setThread ?_
      rw [(h.inUse hin.known).2.2.1, hth]
      rfl
  | closed hth =>
      exact .setThread (hs.setPcb (by rfl) (by rfl) (by rfl) (by rfl)) (by rw [hth]; rfl)
  | closePost hth _ => exact hs.setThread (by rw [hth]; rfl)
  | intercept hth h => exact h.shaken hth hs
  | takeRecved hloop _ => exact select hloop rfl rfl
  | @takeSend o entry q hloop hrecv =>
      obtain ⟨hbuf, _⟩ := Chan.recv_some hrecv
      have := hs
      rw [Sys.Shaken, hloop, hbuf] at this
      exact this
  | takeInput hloop _ => exact select hloop rfl rfl
  | loop hpc h => exact h.shaken hpc hs hlocked honce hin.known
  | callback hloop h => exact h.shaken hloop hs hin
  | _ => exact hs

/-- In every reachable state the handshake is in order on every TCP PCB. -/
theorem reachable_shaken (h : (bridge cfg).Reachable s) : s.Shaken := by
  have known : ∀ {s}, (bridge cfg).Reachable s → (s.InOrder ∧ s.Locked) ∧ s.ClosedOnce :=
    fun h => ⟨⟨reachable_inOrder h, reachable_locked h⟩, reachable_closedOnce h⟩
  refine h.invariant_of known ?_ ?_
  · rintro p ⟨hp, _⟩
    exact absurd hp (Nat.not_lt_zero p)
  · intro s a t hs _ hshaken hstep
    exact (step_cases hs.1.1 hstep).shaken hshaken hs.1.1 hs.1.2 hs.2

end LwipCs
