import LwipCs.Bridge.SendSafety
import LwipCs.Bridge.Writes

/-!
# The bytes of a connection on their way out

For an open TCP PCB, what `tcp_write` took, what is left in `es->p` and what the
waiting `Write` has yet to hand over are together the buffers of the Writes that
took `lck`, in that order. This holds as long as `pbuf_alloc` does not fail in a
`Send` of the PCB.
-/

namespace LwipCs

open Interleave

/-- The Writes that took `lck` of `p`, with their bytes. -/
def Event.lockedOn (p : PcbId) : Event → Option (WriteId × Bytes)
  | .locked q w data => if q = p then some (w, data) else none
  | _ => none

/-- The bytes `tcp_write` took for the connection `k`. -/
def Event.wroteTo (k : ConnId) : Event → Option Bytes
  | .lwip j _ (.rawSend _ bytes) => if j = k then some bytes else none
  | _ => none

/-- All bytes handed to `tcp_write` for the connection `k`. -/
def written (k : ConnId) (trace : List Event) : Bytes :=
  (select (Event.wroteTo k) trace).flatten

/-- The bytes a list of Writes hands over. -/
def carried (writes : List (WriteId × Bytes)) : Bytes := writes.flatMap fun x => accepted x.2

/-- `Write` has returned without an error: the bytes of its buffer were handed to
`tcp_write` after those of the Writes that took `lck` before it, and what follows
them comes from later Writes. -/
def Truthful (p : PcbId) (k : ConnId) (before : List Event) (ev : Event) : Prop :=
  ∀ w data, ev = .writeRet p w data true → data.length ≤ 65535 →
    ∃ pre post rest, select (Event.lockedOn p) before = pre ++ (w, data) :: post ∧
      written k before = carried pre ++ data ++ rest ∧ rest <+: carried post

/-- `pbuf_alloc` succeeds in every `Send` of the PCB. -/
def AllocOk (p : PcbId) (s : Sys) : Act → Prop
  | .loop o => ∀ w, s.loop = .send ⟨p, w⟩ → (s.pcbs p).err = false → o.alloc = true
  | _ => True

/-- A TCP PCB whose `err` is not set. -/
def OpenTcp (nextPcb : PcbId) (pcbs : PcbId → PCB) (p : PcbId) : Prop :=
  Made nextPcb pcbs .tcp p ∧ (pcbs p).err = false

theorem OpenTcp.of_kept {nextPcb : PcbId} {pcbs pcbs' : PcbId → PCB} {p : PcbId}
    (h : OpenTcp nextPcb pcbs' p) (hkept : PcbsKept pcbs pcbs') : OpenTcp nextPcb pcbs p := by
  obtain ⟨⟨hlt, htype⟩, hopen⟩ := h
  rw [hkept.flow] at htype
  exact ⟨⟨hlt, htype⟩, hkept.isOpen p hopen⟩

/-- Places of `Write` after it took `lck`. -/
def WritePc.locked : WritePc → Bool
  | .enqueue | .wait | .unlock | .ret => true
  | _ => false

/-- The call of `Write` on `p` a goroutine performs, from the lock on. -/
def Thread.writing (p : PcbId) : Thread → Option (WriteId × WritePc)
  | .write q w pc => if q = p ∧ pc.locked = true then some (w, pc) else none
  | _ => none

theorem WritesKept.writing {s t : Sys} (h : WritesKept s t) (p : PcbId) :
    (fun u => (t.threads u).writing p) = fun u => (s.threads u).writing p := by
  funext u
  cases hu : s.threads u with
  | write q w pc => rw [(h.threads u q w pc).mpr hu]
  | _ =>
      cases hu' : t.threads u with
      | write q w pc => cases hu.symm.trans ((h.threads u q w pc).mp hu')
      | _ => rfl

/-- What is left to send of the Writes that took `lck`: the buffer of the Write that is
about to post it or whose entry is posted. -/
structure Unsent (writing : Tid → Option (WriteId × WritePc)) (data : WriteId → Bytes)
    (pending : List WriteId) (rest : Bytes) : Prop where
  enqueuing : ∀ t w, writing t = some (w, .enqueue) → rest = accepted (data w)
  posted : ∀ w ∈ pending, rest = accepted (data w)
  nothing : (∀ t w, writing t ≠ some (w, .enqueue)) → pending = [] → rest = []

/-- The output of the PCB `p`. -/
structure Output (p nextPcb : PcbId) (pcbs : PcbId → PCB)
    (writing : Tid → Option (WriteId × WritePc)) (data : WriteId → Bytes) (pending : List WriteId)
    (heap : Ptr → Option RawState) (nextConn : ConnId) (trace : List Event) : Prop where
  single : ∀ e es, heap e = some es → Single es.p
  fresh : ∀ k a n bytes, .lwip k a (.rawSend n bytes) ∈ trace → k < nextConn
  unmade : nextPcb ≤ p → select (Event.lockedOn p) trace = [] ∧
    ∀ w bytes, .writeRet p w bytes true ∉ trace
  held : ∀ t w pc, writing t = some (w, pc) → pc = .enqueue ∨ pc = .wait →
    ∃ pre, select (Event.lockedOn p) trace = pre ++ [(w, data w)]
  bytes : OpenTcp nextPcb pcbs p → ∀ es, heap (pcbs p).state = some es →
    es.conn = (pcbs p).conn → ∃ rest, Unsent writing data pending rest ∧
      written (pcbs p).conn trace ++ chainBytes es.p ++ rest =
        carried (select (Event.lockedOn p) trace)
  past : OpenTcp nextPcb pcbs p → ∀ t w pc, writing t = some (w, pc) → pc = .unlock ∨ pc = .ret →
    ∃ pre post, select (Event.lockedOn p) trace = pre ++ (w, data w) :: post ∧
      carried (pre ++ [(w, data w)]) <+: written (pcbs p).conn trace
  truthful : Made nextPcb pcbs .tcp p → Each (Truthful p (pcbs p).conn) trace

/-- `Output` of a state of the system. -/
abbrev Sys.InOutput (s : Sys) (p : PcbId) : Prop :=
  Output p s.nextPcb s.pcbs (fun t => (s.threads t).writing p) (fun w => (s.bufs w).data)
    (pendingOn p (s.loop.inHand ++ s.sendQueue.buf)) s.heap s.nextConn s.trace

section

variable {p nextPcb : PcbId} {pcbs : PcbId → PCB} {writing : Tid → Option (WriteId × WritePc)}
variable {data : WriteId → Bytes} {pending : List WriteId} {heap : Ptr → Option RawState}
variable {nextConn : ConnId} {trace : List Event} {ev : Event}

@[simp] theorem carried_append (a b : List (WriteId × Bytes)) :
    carried (a ++ b) = carried a ++ carried b := List.flatMap_append ..

@[simp] theorem carried_singleton (w : WriteId) (bytes : Bytes) :
    carried [(w, bytes)] = accepted bytes := by
  simp [carried]

theorem written_snoc (k : ConnId) :
    written k (trace ++ [ev]) = written k trace ++ (ev.wroteTo k).toList.flatten := by
  rw [written, select_snoc, List.flatten_append, written]

/-- A `Write` that returns without an error. -/
def Event.returnsOn (p : PcbId) : Event → Bool
  | .writeRet q _ _ ok => decide (q = p) && ok
  | _ => false

theorem truthful_of_quiet {k : ConnId} (hret : ev.returnsOn p = false) : Truthful p k trace ev := by
  rintro w bytes rfl
  simp [Event.returnsOn] at hret

namespace Output

theorem emit (h : Output p nextPcb pcbs writing data pending heap nextConn trace)
    (hlocked : ev.lockedOn p = none := by rfl) (hwrote : ∀ k, ev.wroteTo k = none := by intros; rfl)
    (hret : ev.returnsOn p = false := by rfl) :
    Output p nextPcb pcbs writing data pending heap nextConn (trace ++ [ev]) := by
  have hl : select (Event.lockedOn p) (trace ++ [ev]) = select (Event.lockedOn p) trace := by
    rw [select_snoc, hlocked, Option.toList_none, List.append_nil]
  have hw : ∀ k, written k (trace ++ [ev]) = written k trace := by
    intro k
    rw [written_snoc, hwrote k, Option.toList_none, List.flatten_nil, List.append_nil]
  refine ⟨h.single, ?_, ?_, ?_, ?_, ?_, ?_⟩
  · intro k a n bytes hk
    rcases List.mem_append.mp hk with hk | hk
    · exact h.fresh k a n bytes hk
    · have := hwrote k
      rw [← List.mem_singleton.mp hk, Event.wroteTo, if_pos rfl] at this
      cases this
  · intro hp
    obtain ⟨hnone, hnot⟩ := h.unmade hp
    refine ⟨hl.trans hnone, ?_⟩
    intro w bytes hw
    rcases List.mem_append.mp hw with hw | hw
    · exact hnot w bytes hw
    · rw [← List.mem_singleton.mp hw] at hret
      simp [Event.returnsOn] at hret
  · rw [hl]
    exact h.held
  · rw [hl, hw]
    exact h.bytes
  · rw [hl, hw]
    exact h.past
  · intro hp
    exact each_snoc.mpr ⟨h.truthful hp, truthful_of_quiet hret⟩

/-- `if Event != nil { Event.… }` -/
theorem notify (event : Bool) (h : Output p nextPcb pcbs writing data pending heap nextConn trace)
    (hlocked : ev.lockedOn p = none := by rfl) (hwrote : ∀ k, ev.wroteTo k = none := by intros; rfl)
    (hret : ev.returnsOn p = false := by rfl) :
    Output p nextPcb pcbs writing data pending heap nextConn
      (trace ++ if event then [ev] else []) :=
  snoc_if (P := Output p nextPcb pcbs writing data pending heap nextConn) event h
    (h.emit hlocked hwrote hret)

theorem setPcbs (h : Output p nextPcb pcbs writing data pending heap nextConn trace)
    {pcbs' : PcbId → PCB} (hkept : PcbsKept pcbs pcbs') :
    Output p nextPcb pcbs' writing data pending heap nextConn trace := by
  refine { h with bytes := ?_, past := ?_, truthful := ?_ }
  · rw [hkept.flow]
    exact fun hp => h.bytes (hp.of_kept hkept)
  · rw [hkept.flow]
    exact fun hp => h.past (hp.of_kept hkept)
  · simp only [Made, hkept.flow]
    exact h.truthful

/-- A goroutine that performs no `Write` on `p` past the lock, before or after. -/
theorem setThread {threads : Tid → Thread} {t : Tid} {th : Thread}
    (h : Output p nextPcb pcbs (fun u => (threads u).writing p) data pending heap nextConn trace)
    (hsame : (threads t).writing p = th.writing p) :
    Output p nextPcb pcbs (fun u => (Function.update threads t th u).writing p) data pending heap
      nextConn trace := by
  have same : (fun u => (Function.update threads t th u).writing p) =
      fun u => (threads u).writing p := by
    funext u
    exact update_field (fun y : Thread => y.writing p) hsame.symm u
  rwa [same]

/-- A PCB that is closed, or is not a TCP PCB, owes nothing. -/
theorem setPending (h : Output p nextPcb pcbs writing data pending heap nextConn trace)
    {pending' : List WriteId} (hp : ¬OpenTcp nextPcb pcbs p) :
    Output p nextPcb pcbs writing data pending' heap nextConn trace :=
  { h with bytes := fun hopen => absurd hopen hp }

/-- The bytes of buffers change that are not in use by a `Write` on `p`. -/
theorem setData (h : Output p nextPcb pcbs writing data pending heap nextConn trace)
    {data' : WriteId → Bytes} (hwriting : ∀ t w pc, writing t = some (w, pc) → data' w = data w)
    (hpending : OpenTcp nextPcb pcbs p → ∀ w ∈ pending, data' w = data w) :
    Output p nextPcb pcbs writing data' pending heap nextConn trace := by
  refine { h with held := ?_, bytes := ?_, past := ?_ }
  · intro t w pc ht hpc
    rw [hwriting t w pc ht]
    exact h.held t w pc ht hpc
  · intro hopen es hes hconn
    obtain ⟨rest, ⟨henqueuing, hposted, hnothing⟩, hall⟩ := h.bytes hopen es hes hconn
    refine ⟨rest, ⟨?_, ?_, hnothing⟩, hall⟩
    · intro t w ht
      rw [hwriting t w _ ht]
      exact henqueuing t w ht
    · intro w hw
      rw [hpending hopen w hw]
      exact hposted w hw
  · intro hopen t w pc ht hpc
    rw [hwriting t w pc ht]
    exact h.past hopen t w pc ht hpc

/-- A state object is released, or changes fields other than its bytes. -/
theorem setHeap (h : Output p nextPcb pcbs writing data pending heap nextConn trace) {e : Ptr}
    {es : RawState} (hes : heap e = some es) {state : Option RawState}
    (hstate : ∀ es' ∈ state, es'.p = es.p ∧ es'.conn = es.conn) :
    Output p nextPcb pcbs writing data pending (Function.update heap e state) nextConn trace := by
  have old : ∀ f fs, Function.update heap e state f = some fs →
      ∃ fs', heap f = some fs' ∧ fs.p = fs'.p ∧ fs.conn = fs'.conn := by
    intro f fs hf
    by_cases hfe : f = e
    · subst hfe
      rw [Function.update_self] at hf
      exact ⟨es, hes, hstate fs hf⟩
    · rw [Function.update_of_ne hfe] at hf
      exact ⟨fs, hf, rfl, rfl⟩
  refine { h with single := ?_, bytes := ?_ }
  · intro f fs hf
    obtain ⟨fs', hf', hp, _⟩ := old f fs hf
    rw [hp]
    exact h.single f fs' hf'
  · intro hopen fs hfs hconn
    obtain ⟨fs', hf', hp, hsame⟩ := old _ fs hfs
    rw [hp]
    exact h.bytes hopen fs' hf' (hsame.symm.trans hconn)

/-- `cs_tcp_raw_send` moves bytes of one object to `tcp_write`. -/
theorem transfer (h : Output p nextPcb pcbs writing data pending heap nextConn trace) {a e : Ptr}
    {es : RawState} {chain : List Pbuf} {n : Nat} {bytes : Bytes} (hes : heap e = some es)
    (hsingle : Single chain) (hlt : es.conn < nextConn)
    (hbytes : OpenTcp nextPcb pcbs p → es.conn = (pcbs p).conn →
      (pcbs p).state = e ∧ bytes ++ chainBytes chain = chainBytes es.p) :
    Output p nextPcb pcbs writing data pending
      (Function.update heap e (some { es with p := chain })) nextConn
      (trace ++ [.lwip es.conn a (.rawSend n bytes)]) := by
  have hl : select (Event.lockedOn p) (trace ++ [.lwip es.conn a (.rawSend n bytes)]) =
      select (Event.lockedOn p) trace := by
    rw [select_snoc]
    exact List.append_nil _
  have hwritten : ∀ k, written k (trace ++ [.lwip es.conn a (.rawSend n bytes)]) =
      written k trace ++ if es.conn = k then bytes else [] := by
    intro k
    rw [written_snoc, Event.wroteTo]
    split <;> simp
  refine ⟨?_, ?_, ?_, ?_, ?_, ?_, ?_⟩
  · intro f fs hf
    by_cases hfe : f = e
    · subst hfe
      rw [Function.update_self] at hf
      cases hf
      exact hsingle
    · rw [Function.update_of_ne hfe] at hf
      exact h.single f fs hf
  · intro k b m more hk
    rcases List.mem_append.mp hk with hk | hk
    · exact h.fresh k b m more hk
    · cases List.mem_singleton.mp hk
      exact hlt
  · intro hp
    obtain ⟨hnone, hnot⟩ := h.unmade hp
    refine ⟨hl.trans hnone, ?_⟩
    intro w more hw
    exact hnot w more (by simpa using hw)
  · rw [hl]
    exact h.held
  · intro hopen fs hfs hconn
    rw [hl, hwritten]
    by_cases hsame : es.conn = (pcbs p).conn
    · -- the bytes of the object of `p`
      obtain ⟨hstate, hmoved⟩ := hbytes hopen hsame
      rw [hstate, Function.update_self] at hfs
      cases hfs
      obtain ⟨rest, hunsent, hall⟩ := h.bytes hopen es (hstate ▸ hes) hsame
      refine ⟨rest, hunsent, ?_⟩
      rw [if_pos hsame, List.append_assoc (written _ _), hmoved]
      exact hall
    · have hne : (pcbs p).state ≠ e := by
        intro hstate
        rw [hstate, Function.update_self] at hfs
        cases hfs
        exact hsame hconn
      rw [Function.update_of_ne hne] at hfs
      rw [if_neg hsame, List.append_nil]
      exact h.bytes hopen fs hfs hconn
  · intro hopen u w pc hu hpc
    obtain ⟨pre, post, hlocked, hprefix⟩ := h.past hopen u w pc hu hpc
    rw [hl, hwritten]
    exact ⟨pre, post, hlocked, hprefix.trans (List.prefix_append _ _)⟩
  · intro hp
    exact each_snoc.mpr ⟨h.truthful hp, truthful_of_quiet rfl⟩

/-- `Send` hands the posted buffer of `p` to the C layer. -/
theorem send {w : WriteId}
    (h : Output p nextPcb pcbs writing data (w :: pending) heap nextConn trace) {a : Ptr}
    {es : RawState} {chain : List Pbuf} {n : Nat} {bytes : Bytes}
    (hes : heap (pcbs p).state = some es) (hconn : es.conn = (pcbs p).conn) (hempty : es.p = [])
    (hbytes : bytes ++ chainBytes chain = accepted (data w)) (hsingle : Single chain)
    (hlt : es.conn < nextConn) (hnone : ∀ t v, writing t ≠ some (v, .enqueue))
    (hpending : pending = []) :
    Output p nextPcb pcbs writing data pending
      (Function.update heap (pcbs p).state (some { es with p := chain })) nextConn
      (trace ++ [.lwip es.conn a (.rawSend n bytes)]) := by
  have hl : select (Event.lockedOn p) (trace ++ [.lwip es.conn a (.rawSend n bytes)]) =
      select (Event.lockedOn p) trace := by
    rw [select_snoc]
    exact List.append_nil _
  have hwritten : written (pcbs p).conn (trace ++ [.lwip es.conn a (.rawSend n bytes)]) =
      written (pcbs p).conn trace ++ bytes := by
    rw [written_snoc, Event.wroteTo, if_pos hconn]
    simp
  refine ⟨?_, ?_, ?_, ?_, ?_, ?_, ?_⟩
  · intro f fs hf
    by_cases hfe : f = (pcbs p).state
    · subst hfe
      rw [Function.update_self] at hf
      cases hf
      exact hsingle
    · rw [Function.update_of_ne hfe] at hf
      exact h.single f fs hf
  · intro k b m more hk
    rcases List.mem_append.mp hk with hk | hk
    · exact h.fresh k b m more hk
    · cases List.mem_singleton.mp hk
      exact hlt
  · intro hp
    obtain ⟨hnone, hnot⟩ := h.unmade hp
    refine ⟨hl.trans hnone, ?_⟩
    intro v more hv
    exact hnot v more (by simpa using hv)
  · rw [hl]
    exact h.held
  · intro hopen fs hfs _
    rw [Function.update_self] at hfs
    cases hfs
    obtain ⟨rest, hunsent, hall⟩ := h.bytes hopen es hes hconn
    refine ⟨[], ⟨?_, ?_, fun _ _ => rfl⟩, ?_⟩
    · intro t v ht
      exact absurd ht (hnone t v)
    · rw [hpending]
      nofun
    · rw [hl, hwritten, List.append_nil, List.append_assoc, hbytes, ← hall, hempty,
        hunsent.posted w List.mem_cons_self, chainBytes_nil, List.append_nil]
  · intro hopen u v pc hu hpc
    obtain ⟨pre, post, hlocked, hprefix⟩ := h.past hopen u v pc hu hpc
    rw [hl, hwritten]
    exact ⟨pre, post, hlocked, hprefix.trans (List.prefix_append _ _)⟩
  · intro hp
    exact each_snoc.mpr ⟨h.truthful hp, truthful_of_quiet rfl⟩

/-- A `Write` takes the lock. -/
theorem lock (h : Output p nextPcb pcbs writing data pending heap nextConn trace) {t : Tid}
    {w : WriteId} (hlt : p < nextPcb) (hfree : ∀ u v pc, writing u = some (v, pc) → pc = .ret)
    (hpending : OpenTcp nextPcb pcbs p → pending = []) :
    Output p nextPcb pcbs (Function.update writing t (some (w, .enqueue))) data pending heap
      nextConn (trace ++ [.locked p w (data w)]) := by
  have hl : select (Event.lockedOn p) (trace ++ [.locked p w (data w)]) =
      select (Event.lockedOn p) trace ++ [(w, data w)] := by
    rw [select_snoc, Event.lockedOn, if_pos rfl]
    rfl
  have hw : ∀ k, written k (trace ++ [.locked p w (data w)]) = written k trace := by
    intro k
    rw [written_snoc]
    exact List.append_nil _
  refine ⟨h.single, ?_, ?_, ?_, ?_, ?_, ?_⟩
  · intro k a n bytes hk
    exact h.fresh k a n bytes (by simpa using hk)
  · exact fun hp => absurd hlt (Nat.not_lt.mpr hp)
  · intro u v pc hu hpc
    rw [hl]
    by_cases hut : u = t
    · subst hut
      rw [Function.update_self] at hu
      cases hu
      exact ⟨_, rfl⟩
    · rw [Function.update_of_ne hut] at hu
      rw [hfree u v pc hu] at hpc
      rcases hpc with hpc | hpc <;> cases hpc
  · intro hopen es hes hconn
    obtain ⟨rest, hunsent, hall⟩ := h.bytes hopen es hes hconn
    have hnothing : rest = [] := by
      refine hunsent.nothing ?_ (hpending hopen)
      intro u v hu
      have := hfree u v _ hu
      cases this
    refine ⟨accepted (data w), ⟨?_, ?_, ?_⟩, ?_⟩
    · intro u v hu
      by_cases hut : u = t
      · subst hut
        rw [Function.update_self] at hu
        cases hu
        rfl
      · rw [Function.update_of_ne hut] at hu
        have := hfree u v _ hu
        cases this
    · rw [hpending hopen]
      nofun
    · intro hnone _
      exact absurd (Function.update_self ..) (hnone t w)
    · rw [hl, hw, carried_append, carried_singleton, ← hall, hnothing, List.append_nil]
  · intro hopen u v pc hu hpc
    rw [hl, hw]
    by_cases hut : u = t
    · subst hut
      rw [Function.update_self] at hu
      cases hu
      rcases hpc with hpc | hpc <;> cases hpc
    · rw [Function.update_of_ne hut] at hu
      obtain ⟨pre, post, hlocked, hprefix⟩ := h.past hopen u v pc hu hpc
      refine ⟨pre, post ++ [(w, data w)], ?_, hprefix⟩
      rw [hlocked, List.append_assoc, List.cons_append]
  · intro hp
    exact each_snoc.mpr ⟨h.truthful hp, truthful_of_quiet rfl⟩

/-- A `Write` posts its buffer. -/
theorem enqueue (h : Output p nextPcb pcbs writing data pending heap nextConn trace) {t : Tid}
    {w : WriteId} (ht : writing t = some (w, .enqueue)) :
    Output p nextPcb pcbs (Function.update writing t (some (w, .wait))) data (pending ++ [w]) heap
      nextConn trace := by
  refine { h with held := ?_, bytes := ?_, past := ?_ }
  · intro u v pc hu hpc
    by_cases hut : u = t
    · subst hut
      rw [Function.update_self] at hu
      cases hu
      exact h.held u w _ ht (Or.inl rfl)
    · rw [Function.update_of_ne hut] at hu
      exact h.held u v pc hu hpc
  · intro hopen es hes hconn
    obtain ⟨rest, hunsent, hall⟩ := h.bytes hopen es hes hconn
    refine ⟨rest, ⟨?_, ?_, ?_⟩, hall⟩
    · intro u v hu
      by_cases hut : u = t
      · subst hut
        rw [Function.update_self] at hu
        cases hu
      · rw [Function.update_of_ne hut] at hu
        exact hunsent.enqueuing u v hu
    · intro v hv
      rcases List.mem_append.mp hv with hv | hv
      · exact hunsent.posted v hv
      · rw [List.mem_singleton.mp hv]
        exact hunsent.enqueuing t w ht
    · simp
  · intro hopen u v pc hu hpc
    by_cases hut : u = t
    · subst hut
      rw [Function.update_self] at hu
      cases hu
      rcases hpc with hpc | hpc <;> cases hpc
    · rw [Function.update_of_ne hut] at hu
      exact h.past hopen u v pc hu hpc

/-- A `Write` goes on behind its wait; if the PCB is open all its bytes were handed over. -/
theorem proceed (h : Output p nextPcb pcbs writing data pending heap nextConn trace) {t : Tid}
    {w : WriteId} {pc' : WritePc} (ht : ∀ v, writing t ≠ some (v, .enqueue))
    (hpc' : pc' = .unlock ∨ pc' = .ret)
    (hdone : OpenTcp nextPcb pcbs p → ∃ pre post,
      select (Event.lockedOn p) trace = pre ++ (w, data w) :: post ∧
        carried (pre ++ [(w, data w)]) <+: written (pcbs p).conn trace) :
    Output p nextPcb pcbs (Function.update writing t (some (w, pc'))) data pending heap nextConn
      trace := by
  have before : ∀ {u v c}, Function.update writing t (some (w, pc')) u = some (v, c) →
      (u = t ∧ v = w ∧ c = pc') ∨ (u ≠ t ∧ writing u = some (v, c)) := by
    intro u v c hu
    by_cases hut : u = t
    · subst hut
      rw [Function.update_self] at hu
      cases hu
      exact Or.inl ⟨rfl, rfl, rfl⟩
    · rw [Function.update_of_ne hut] at hu
      exact Or.inr ⟨hut, hu⟩
  refine { h with held := ?_, bytes := ?_, past := ?_ }
  · intro u v c hu hc
    rcases before hu with ⟨_, _, rfl⟩ | ⟨_, hu⟩
    · rcases hc with rfl | rfl <;> rcases hpc' with hpc' | hpc' <;> cases hpc'
    · exact h.held u v c hu hc
  · intro hopen es hes hconn
    obtain ⟨rest, ⟨henqueuing, hposted, hnothing⟩, hall⟩ := h.bytes hopen es hes hconn
    refine ⟨rest, ⟨?_, hposted, ?_⟩, hall⟩
    · intro u v hu
      rcases before hu with ⟨_, _, hc⟩ | ⟨_, hu⟩
      · rcases hpc' with rfl | rfl <;> cases hc
      · exact henqueuing u v hu
    · intro hnone
      refine hnothing ?_
      intro u v hu
      by_cases hut : u = t
      · subst hut
        exact ht v hu
      · exact hnone u v (by rwa [Function.update_of_ne hut])
  · intro hopen u v c hu hc
    rcases before hu with ⟨_, rfl, _⟩ | ⟨_, hu⟩
    · exact hdone hopen
    · exact h.past hopen u v c hu hc

/-- A `Write` returns. -/
theorem ret (h : Output p nextPcb pcbs writing data pending heap nextConn trace) {t : Tid}
    {w : WriteId} (ht : writing t = some (w, .ret)) (hlt : p < nextPcb)
    (hobject : OpenTcp nextPcb pcbs p →
      ∃ es, heap (pcbs p).state = some es ∧ es.conn = (pcbs p).conn) :
    Output p nextPcb pcbs (Function.update writing t none) data pending heap nextConn
      (trace ++ [.writeRet p w (data w) (!(pcbs p).err)]) := by
  have before : ∀ {u v c}, Function.update writing t none u = some (v, c) →
      writing u = some (v, c) := by
    intro u v c hu
    by_cases hut : u = t
    · subst hut
      rw [Function.update_self] at hu
      cases hu
    · rwa [Function.update_of_ne hut] at hu
  have hl : select (Event.lockedOn p) (trace ++ [.writeRet p w (data w) (!(pcbs p).err)]) =
      select (Event.lockedOn p) trace := by
    rw [select_snoc]
    exact List.append_nil _
  have hw : ∀ k, written k (trace ++ [.writeRet p w (data w) (!(pcbs p).err)]) =
      written k trace := by
    intro k
    rw [written_snoc]
    exact List.append_nil _
  refine ⟨h.single, ?_, ?_, ?_, ?_, ?_, ?_⟩
  · intro k a n bytes hk
    exact h.fresh k a n bytes (by simpa using hk)
  · exact fun hp => absurd hlt (Nat.not_lt.mpr hp)
  · intro u v c hu hc
    rw [hl]
    exact h.held u v c (before hu) hc
  · intro hopen es hes hconn
    rw [hl, hw]
    obtain ⟨rest, ⟨henqueuing, hposted, hnothing⟩, hall⟩ := h.bytes hopen es hes hconn
    refine ⟨rest, ⟨fun u v hu => henqueuing u v (before hu), hposted, ?_⟩, hall⟩
    intro hnone
    refine hnothing ?_
    intro u v hu
    by_cases hut : u = t
    · subst hut
      rw [ht] at hu
      cases hu
    · exact hnone u v (by rwa [Function.update_of_ne hut])
  · intro hopen u v c hu hc
    rw [hl, hw]
    exact h.past hopen u v c (before hu) hc
  · intro hp
    refine each_snoc.mpr ⟨h.truthful hp, ?_⟩
    intro v bytes hev hlen
    injection hev with _ hwv hbytes hok
    subst hwv hbytes
    have hopen : OpenTcp nextPcb pcbs p := ⟨hp, by simpa using hok⟩
    obtain ⟨pre, post, hlocked, rest, hrest⟩ := h.past hopen t w _ ht (Or.inr rfl)
    obtain ⟨es, hes, hconn⟩ := hobject hopen
    obtain ⟨unsent, _, hall⟩ := h.bytes hopen es hes hconn
    have hacc : accepted (data w) = data w := accepted_of_lt (by omega)
    rw [carried_append, carried_singleton, hacc] at hrest
    refine ⟨pre, post, rest, hlocked, hrest.symm, chainBytes es.p ++ unsent, ?_⟩
    -- what follows the bytes of this Write is owed to later ones
    have hcarried : carried pre ++ data w ++ (rest ++ (chainBytes es.p ++ unsent)) =
        carried pre ++ data w ++ carried post := by
      rw [← List.append_assoc, hrest, ← List.append_assoc, hall, hlocked, carried_append,
        ← List.singleton_append, carried_append, carried_singleton, hacc, List.append_assoc]
    exact List.append_cancel_left hcarried

/-- A PCB just made, which nothing names yet; for a TCP PCB with a new object of a new
connection. -/
theorem newPcb (h : Output p nextPcb pcbs writing data pending heap nextConn trace) {x : PCB}
    {heap' : Ptr → Option RawState} {conns : ConnId} (hconns : nextConn ≤ conns)
    (hheap : ∀ e es, heap' e = some es →
      heap e = some es ∨ (es.p = [] ∧ es.conn = nextConn))
    (hconn : x.type = .tcp → x.conn = nextConn)
    (hobject : x.type = .tcp → ∀ es, heap' x.state = some es → es.conn = nextConn → es.p = [])
    (hlt : Made nextPcb pcbs .tcp p → (pcbs p).conn < nextConn)
    (hwriting : p = nextPcb → ∀ t, writing t = none) (hpending : p = nextPcb → pending = []) :
    Output p (nextPcb + 1) (Function.update pcbs nextPcb x) writing data pending heap' conns
      trace := by
  have hsingle : ∀ e es, heap' e = some es → Single es.p := by
    intro e es hes
    rcases hheap e es hes with hold | ⟨hempty, _⟩
    · exact h.single e es hold
    · rw [hempty]
      exact single_nil
  have hfresh : ∀ k a n bytes, .lwip k a (.rawSend n bytes) ∈ trace → k < conns :=
    fun k a n bytes hk => Nat.lt_of_lt_of_le (h.fresh k a n bytes hk) hconns
  by_cases hp : p = nextPcb
  · subst hp
    obtain ⟨hnone, hnot⟩ := h.unmade (Nat.le_refl _)
    refine ⟨hsingle, hfresh, fun _ => ⟨hnone, hnot⟩, h.held, ?_, ?_, ?_⟩
    · rintro ⟨⟨_, htype⟩, _⟩ es hes hsame
      rw [Function.update_self] at htype hes hsame ⊢
      have hwritten : written x.conn trace = [] := by
        rw [written, hconn htype, List.flatten_eq_nil_iff]
        intro bytes hbytes
        obtain ⟨ev, hev, hwrote⟩ := List.mem_filterMap.mp hbytes
        cases ev with
        | lwip k a call =>
            cases call with
            | rawSend n more =>
                have hne := Nat.ne_of_lt (h.fresh k a n more hev)
                rw [Event.wroteTo, if_neg hne] at hwrote
                cases hwrote
            | _ => cases hwrote
        | _ => cases hwrote
      refine ⟨[], ⟨?_, ?_, fun _ _ => rfl⟩, ?_⟩
      · intro t w ht
        rw [hwriting rfl t] at ht
        cases ht
      · rw [hpending rfl]
        nofun
      · rw [hwritten, hnone, hobject htype es hes (hsame.trans (hconn htype))]
        rfl
    · intro _ t w pc ht
      rw [hwriting rfl t] at ht
      cases ht
    · rintro _ before ev after htrace w bytes rfl
      exact absurd (by simp [htrace]) (hnot w bytes)
  · have hsame : Function.update pcbs nextPcb x p = pcbs p := Function.update_of_ne hp ..
    have hmade : Made (nextPcb + 1) (Function.update pcbs nextPcb x) .tcp p →
        Made nextPcb pcbs .tcp p := by
      rintro ⟨hlt, htype⟩
      rw [hsame] at htype
      exact ⟨Nat.lt_of_le_of_ne (Nat.le_of_lt_succ hlt) hp, htype⟩
    have hopen : OpenTcp (nextPcb + 1) (Function.update pcbs nextPcb x) p →
        OpenTcp nextPcb pcbs p := by
      rintro ⟨hm, herr⟩
      rw [hsame] at herr
      exact ⟨hmade hm, herr⟩
    refine ⟨hsingle, hfresh, fun hle => h.unmade (Nat.le_of_succ_le hle), h.held, ?_, ?_, ?_⟩
    · rw [hsame]
      intro ho es hes hconn'
      rcases hheap _ es hes with hold | ⟨_, hnew⟩
      · exact h.bytes (hopen ho) es hold hconn'
      · exact absurd (hconn'.symm.trans hnew) (Nat.ne_of_lt (hlt (hopen ho).1))
    · rw [hsame]
      exact fun ho => h.past (hopen ho)
    · rw [hsame]
      exact fun hm => h.truthful (hmade hm)

end Output

end

end LwipCs
