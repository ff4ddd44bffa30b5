import LwipCs.Bridge.Unchanged

/-!
# Calls of `Write`

Every call of `Write` has its own buffer, which is in use until the call returns.
A call posts its buffer at most once, and returns without an error only if it has
posted it.
-/

namespace LwipCs

open Interleave

/-- Places of `Write` after the send to `sendQueue`. -/
def WritePc.posted : WritePc → Bool
  | .wait | .unlock | .ret => true
  | _ => false

def Event.enqueuedWrite : Event → Option WriteId
  | .enqueued _ w => some w
  | _ => none

/-- Every call of `Write` in progress has a buffer of its own, in use. -/
structure Calls (threads : Tid → Thread) (bufs : WriteId → Buffer) (nextWrite : WriteId) :
    Prop where
  lt : ∀ t p w pc, threads t = .write p w pc → w < nextWrite
  unique : ∀ t u p q w pc pc', threads t = .write p w pc → threads u = .write q w pc' → t = u
  inUse : ∀ t p w pc, threads t = .write p w pc → (bufs w).inUse = true

/-- The calls of `Write` agree with what was posted and returned. -/
structure Writers (pcbs : PcbId → PCB) (threads : Tid → Thread) (bufs : WriteId → Buffer)
    (nextWrite : WriteId) (trace : List Event) : Prop extends Calls threads bufs nextWrite where
  posted : ∀ p w, .enqueued p w ∈ trace →
    w < nextWrite ∧ ∀ t q pc, threads t = .write q w pc → pc.posted = true
  once : (select Event.enqueuedWrite trace).Nodup
  /-- past the send to `sendQueue` the buffer was posted, or `err` was found set -/
  past : ∀ t p w pc, threads t = .write p w pc → pc.posted = true →
    .enqueued p w ∈ trace ∨ (pcbs p).err = true
  returned : ∀ p w data, .writeRet p w data true ∈ trace → .enqueued p w ∈ trace

/-- `Writers` of a state of the system. -/
abbrev Sys.WritesOk (s : Sys) : Prop := Writers s.pcbs s.threads s.bufs s.nextWrite s.trace

/-- An event of a buffer posted or returned. -/
def Event.ofWrites : Event → Bool
  | .enqueued .. | .writeRet .. => true
  | _ => false

section

variable {pcbs : PcbId → PCB} {threads : Tid → Thread} {bufs : WriteId → Buffer}
variable {nextWrite : WriteId} {trace : List Event} {ev : Event}

theorem mem_enqueued {w : WriteId} :
    w ∈ select Event.enqueuedWrite trace ↔ ∃ p, .enqueued p w ∈ trace := by
  constructor
  · intro hw
    obtain ⟨ev, hev, hsame⟩ := List.mem_filterMap.mp hw
    cases ev with
    | enqueued p v =>
        cases hsame
        exact ⟨p, hev⟩
    | _ => cases hsame
  · rintro ⟨p, hp⟩
    exact List.mem_filterMap.mpr ⟨_, hp, rfl⟩

/-- A goroutine that is not in `Write` after its step. -/
theorem write_of_update {t u : Tid} {th : Thread} {p : PcbId} {w : WriteId} {pc : WritePc}
    (hth : ∀ p w pc, th ≠ .write p w pc)
    (hu : Function.update threads t th u = .write p w pc) : threads u = .write p w pc := by
  by_cases hut : u = t
  · subst hut
    rw [Function.update_self] at hu
    exact absurd hu (hth p w pc)
  · rwa [Function.update_of_ne hut] at hu

/-- A goroutine that is in `Write` after its step. -/
theorem write_update {t u : Tid} {p q : PcbId} {w v : WriteId} {pc c : WritePc}
    (hu : Function.update threads t (.write p w pc) u = .write q v c) :
    (u = t ∧ q = p ∧ v = w ∧ c = pc) ∨ (u ≠ t ∧ threads u = .write q v c) := by
  by_cases hut : u = t
  · subst hut
    rw [Function.update_self] at hu
    cases hu
    exact Or.inl ⟨rfl, rfl, rfl, rfl⟩
  · rw [Function.update_of_ne hut] at hu
    exact Or.inr ⟨hut, hu⟩

namespace Calls

/-- The goroutines in `Write` were there before. -/
theorem mono (h : Calls threads bufs nextWrite) {threads' : Tid → Thread}
    (hsub : ∀ t p w pc, threads' t = .write p w pc → threads t = .write p w pc) :
    Calls threads' bufs nextWrite where
  lt u p w pc hu := h.lt u p w pc (hsub u p w pc hu)
  unique u v p q w pc pc' hu hv :=
    h.unique u v p q w pc pc' (hsub u p w pc hu) (hsub v q w pc' hv)
  inUse u p w pc hu := h.inUse u p w pc (hsub u p w pc hu)

theorem setThread (h : Calls threads bufs nextWrite) {t : Tid} {th : Thread}
    (hth : ∀ p w pc, th ≠ .write p w pc) : Calls (Function.update threads t th) bufs nextWrite :=
  h.mono fun _ _ _ _ => write_of_update hth

/-- A goroutine enters `Write` with a new buffer. -/
theorem start (h : Calls threads bufs nextWrite) {t : Tid} {p : PcbId} {data : Bytes} :
    Calls (Function.update threads t (.write p nextWrite .test))
      (Function.update bufs nextWrite ⟨data, true⟩) (nextWrite + 1) := by
  have other : ∀ {u q v c}, threads u = .write q v c → v ≠ nextWrite :=
    fun hu => Nat.ne_of_lt (h.lt _ _ _ _ hu)
  constructor
  · intro u q v c hu
    rcases write_update hu with ⟨_, _, rfl, _⟩ | ⟨_, hu⟩
    · exact Nat.lt_succ_self _
    · exact Nat.lt_succ_of_lt (h.lt u q v c hu)
  · intro u u' q q' v c c' hu hu'
    rcases write_update hu with ⟨hut, _, hv, _⟩ | ⟨_, hold⟩ <;>
      rcases write_update hu' with ⟨hut', _, hv', _⟩ | ⟨_, hold'⟩
    · rw [hut, hut']
    · exact absurd hv (other hold')
    · exact absurd hv' (other hold)
    · exact h.unique u u' q q' v c c' hold hold'
  · intro u q v c hu
    rcases write_update hu with ⟨_, _, rfl, _⟩ | ⟨_, hu⟩
    · rw [Function.update_self]
    · rw [Function.update_of_ne (other hu)]
      exact h.inUse u q v c hu

theorem move (h : Calls threads bufs nextWrite) {t : Tid} {p : PcbId} {w : WriteId}
    {pc pc' : WritePc} (ht : threads t = .write p w pc) :
    Calls (Function.update threads t (.write p w pc')) bufs nextWrite := by
  have old : ∀ {u q v c}, Function.update threads t (.write p w pc') u = .write q v c →
      ∃ c, threads u = .write q v c := by
    intro u q v c hu
    rcases write_update hu with ⟨rfl, rfl, rfl, _⟩ | ⟨_, hu⟩
    · exact ⟨pc, ht⟩
    · exact ⟨c, hu⟩
  constructor
  · intro u q v c hu
    obtain ⟨c, hu⟩ := old hu
    exact h.lt u q v c hu
  · intro u u' q q' v c c' hu hu'
    obtain ⟨c, hu⟩ := old hu
    obtain ⟨c', hu'⟩ := old hu'
    exact h.unique u u' q q' v c c' hu hu'
  · intro u q v c hu
    obtain ⟨c, hu⟩ := old hu
    exact h.inUse u q v c hu

/-- A `Write` returns and gives its buffer back. -/
theorem ret (h : Calls threads bufs nextWrite) {t : Tid} {p : PcbId} {w : WriteId} {pc : WritePc}
    {b : Buffer} (ht : threads t = .write p w pc) :
    Calls (Function.update threads t .idle) (Function.update bufs w b) nextWrite := by
  have hidle : Calls (Function.update threads t .idle) bufs nextWrite := h.setThread nofun
  refine { hidle with inUse := ?_ }
  intro u q v c hu
  have hvw : v ≠ w := by
    rintro rfl
    have hut := h.unique _ _ _ _ _ _ _ (write_of_update (by nofun) hu) ht
    subst hut
    rw [Function.update_self] at hu
    cases hu
  rw [Function.update_of_ne hvw]
  exact hidle.inUse u q v c hu

/-- The bytes of a buffer change. -/
theorem setData (h : Calls threads bufs nextWrite) {w : WriteId} {data : Bytes} :
    Calls threads (Function.update bufs w { bufs w with data := data }) nextWrite := by
  refine { h with inUse := ?_ }
  intro t p v pc ht
  by_cases hv : v = w
  · subst hv
    rw [Function.update_self]
    exact h.inUse t p v pc ht
  · rw [Function.update_of_ne hv]
    exact h.inUse t p v pc ht

end Calls

namespace Writers

theorem emit (h : Writers pcbs threads bufs nextWrite trace) (hev : ev.ofWrites = false := by rfl) :
    Writers pcbs threads bufs nextWrite (trace ++ [ev]) := by
  have mem : ∀ {x : Event}, x.ofWrites = true → (x ∈ trace ++ [ev] ↔ x ∈ trace) := by
    intro x hx
    have hne : x ≠ ev := by
      rintro rfl
      rw [hev] at hx
      cases hx
    simp [hne]
  have hnone : ev.enqueuedWrite = none := by
    cases ev with
    | enqueued => cases hev
    | _ => rfl
  refine { h with posted := ?_, once := ?_, past := ?_, returned := ?_ }
  · intro p w hw
    exact h.posted p w ((mem rfl).mp hw)
  · rw [select_snoc, hnone]
    simpa using h.once
  · intro t p w pc ht hpc
    rw [mem rfl]
    exact h.past t p w pc ht hpc
  · intro p w data hret
    rw [mem rfl] at hret ⊢
    exact h.returned p w data hret

theorem setPcbs (h : Writers pcbs threads bufs nextWrite trace) {pcbs' : PcbId → PCB}
    (hkept : PcbsKept pcbs pcbs') : Writers pcbs' threads bufs nextWrite trace := by
  refine { h with past := ?_ }
  intro t q w pc ht hpc
  refine (h.past t q w pc ht hpc).imp_right ?_
  intro herr
  by_contra hopen
  have hopen := hkept.isOpen q (by simpa using hopen)
  rw [herr] at hopen
  cases hopen

/-- A PCB just made, on which no `Write` runs. -/
theorem newPcb (h : Writers pcbs threads bufs nextWrite trace) {nextPcb : PcbId} {x : PCB}
    (hthreads : ∀ t, (threads t).Ok nextPcb pcbs) :
    Writers (Function.update pcbs nextPcb x) threads bufs nextWrite trace := by
  refine { h with past := ?_ }
  intro t q w pc ht hpc
  have hlt : q < nextPcb := by
    have hok := hthreads t
    rw [ht] at hok
    cases pc <;> first | exact hok | exact hok.1
  rw [Function.update_of_ne (Nat.ne_of_lt hlt)]
  exact h.past t q w pc ht hpc

theorem mono (h : Writers pcbs threads bufs nextWrite trace) {threads' : Tid → Thread}
    (hsub : ∀ t p w pc, threads' t = .write p w pc → threads t = .write p w pc) :
    Writers pcbs threads' bufs nextWrite trace := by
  refine { h with toCalls := h.toCalls.mono hsub, posted := ?_, past := ?_ }
  · intro p w hw
    obtain ⟨hlt, hall⟩ := h.posted p w hw
    exact ⟨hlt, fun u q pc hu => hall u q pc (hsub u q w pc hu)⟩
  · intro u p w pc hu
    exact h.past u p w pc (hsub u p w pc hu)

theorem setThread (h : Writers pcbs threads bufs nextWrite trace) {t : Tid} {th : Thread}
    (hth : ∀ p w pc, th ≠ .write p w pc := by nofun) :
    Writers pcbs (Function.update threads t th) bufs nextWrite trace :=
  h.mono fun _ _ _ _ => write_of_update hth

/-- A goroutine enters `Write`. -/
theorem start (h : Writers pcbs threads bufs nextWrite trace) {t : Tid} {p : PcbId} {data : Bytes} :
    Writers pcbs (Function.update threads t (.write p nextWrite .test))
      (Function.update bufs nextWrite ⟨data, true⟩) (nextWrite + 1) trace := by
  refine { h with toCalls := h.toCalls.start, posted := ?_, past := ?_ }
  · intro q w hw
    obtain ⟨hlt, hall⟩ := h.posted q w hw
    refine ⟨Nat.lt_succ_of_lt hlt, ?_⟩
    intro u q' pc hu
    rcases write_update hu with ⟨_, _, rfl, _⟩ | ⟨_, hu⟩
    · exact absurd hlt (Nat.lt_irrefl _)
    · exact hall u q' pc hu
  · intro u q w pc hu hpc
    rcases write_update hu with ⟨_, _, _, rfl⟩ | ⟨_, hu⟩
    · cases hpc
    · exact h.past u q w pc hu hpc

/-- A `Write` goes on. -/
theorem move (h : Writers pcbs threads bufs nextWrite trace) {t : Tid} {p : PcbId} {w : WriteId}
    {pc pc' : WritePc} (ht : threads t = .write p w pc)
    (hposted : pc.posted = true → pc'.posted = true)
    (hpast : pc'.posted = true → .enqueued p w ∈ trace ∨ (pcbs p).err = true) :
    Writers pcbs (Function.update threads t (.write p w pc')) bufs nextWrite trace := by
  refine { h with toCalls := h.toCalls.move ht, posted := ?_, past := ?_ }
  · intro q v hv
    obtain ⟨hlt, hall⟩ := h.posted q v hv
    refine ⟨hlt, ?_⟩
    intro u q' c hu
    rcases write_update hu with ⟨rfl, rfl, rfl, rfl⟩ | ⟨_, hu⟩
    · exact hposted (hall u q' pc ht)
    · exact hall u q' c hu
  · intro u q v c hu hc
    rcases write_update hu with ⟨rfl, rfl, rfl, rfl⟩ | ⟨_, hu⟩
    · exact hpast hc
    · exact h.past u q v c hu hc

/-- A `Write` posts its buffer. -/
theorem post (h : Writers pcbs threads bufs nextWrite trace) {t : Tid} {p : PcbId} {w : WriteId}
    {pc pc' : WritePc} (ht : threads t = .write p w pc) (hpc : pc.posted = false)
    (hpc' : pc'.posted = true) :
    Writers pcbs (Function.update threads t (.write p w pc')) bufs nextWrite
      (trace ++ [.enqueued p w]) := by
  have hnew : w ∉ select Event.enqueuedWrite trace := by
    intro hw
    obtain ⟨q, hq⟩ := mem_enqueued.mp hw
    have := (h.posted q w hq).2 t p pc ht
    rw [hpc] at this
    cases this
  refine { toCalls := h.toCalls.move ht, posted := ?_, once := ?_, past := ?_, returned := ?_ }
  · intro q v hv
    simp only [List.mem_append, List.mem_singleton, Event.enqueued.injEq] at hv
    rcases hv with hv | ⟨_, hvw⟩
    · obtain ⟨hlt, hall⟩ := h.posted q v hv
      refine ⟨hlt, ?_⟩
      intro u q' c hu
      rcases write_update hu with ⟨rfl, rfl, rfl, rfl⟩ | ⟨_, hu⟩
      · exact hpc'
      · exact hall u q' c hu
    · refine ⟨hvw ▸ h.lt t p w pc ht, ?_⟩
      intro u q' c hu
      rcases write_update hu with ⟨_, _, _, rfl⟩ | ⟨hut, hu⟩
      · exact hpc'
      · exact absurd (h.unique _ _ _ _ _ _ _ (hvw ▸ hu) ht) hut
  · rw [select_snoc]
    refine List.nodup_append.mpr ⟨h.once, List.pairwise_singleton _ w, ?_⟩
    intro v hv v' hv' hsame
    have hvw : v' = w := List.mem_singleton.mp hv'
    exact hnew (hvw ▸ hsame ▸ hv)
  · intro u q v c hu hc
    rcases write_update hu with ⟨_, rfl, rfl, _⟩ | ⟨_, hu⟩
    · exact Or.inl (List.mem_append_right _ (List.mem_singleton_self _))
    · rcases h.past u q v c hu hc with hv | herr
      · exact Or.inl (List.mem_append_left _ hv)
      · exact Or.inr herr
  · intro q v data hret
    exact List.mem_append_left _ (h.returned q v data (by simpa using hret))

/-- A `Write` returns. -/
theorem ret (h : Writers pcbs threads bufs nextWrite trace) {t : Tid} {p : PcbId} {w : WriteId}
    {pc : WritePc} {data : Bytes} {ok : Bool} {b : Buffer} (ht : threads t = .write p w pc)
    (hok : ok = true → .enqueued p w ∈ trace) :
    Writers pcbs (Function.update threads t .idle) (Function.update bufs w b) nextWrite
      (trace ++ [.writeRet p w data ok]) := by
  have hidle : Writers pcbs (Function.update threads t .idle) bufs nextWrite trace := h.setThread
  refine { toCalls := h.toCalls.ret ht, posted := ?_, once := ?_, past := ?_, returned := ?_ }
  · intro q v hv
    exact hidle.posted q v (by simpa using hv)
  · rw [select_snoc]
    simpa [Event.enqueuedWrite] using h.once
  · intro u q v c hu hc
    rcases hidle.past u q v c hu hc with hv | herr
    · exact Or.inl (List.mem_append_left _ hv)
    · exact Or.inr herr
  · intro q v data' hret
    simp only [List.mem_append, List.mem_singleton, Event.writeRet.injEq] at hret
    rcases hret with hret | ⟨rfl, rfl, _, hret⟩
    · exact List.mem_append_left _ (h.returned q v data' hret)
    · exact List.mem_append_left _ (hok hret.symm)

end Writers

end

variable {cfg : Config} {s t : Sys} {o : Outcomes}

theorem WriteStep.writesOk {th : Tid} {p : PcbId} {w : WriteId} {pc : WritePc}
    (hth : s.threads th = .write p w pc) (h : WriteStep s th p w pc t) (hs : s.WritesOk) :
    t.WritesOk := by
  have keep := fun hpc => hs.past th p w pc hth hpc
  have move : ∀ c : WritePc, (pc.posted = true → c.posted = true) →
      (c.posted = true → .enqueued p w ∈ s.trace ∨ (s.pcbs p).err = true) →
      Writers s.pcbs (Function.update s.threads th (.write p w c)) s.bufs s.nextWrite s.trace :=
    fun c hposted hpast => hs.move hth hposted hpast
  cases h with
  | empty _ => exact hs.ret hth nofun
  | closed _ herr => exact move .ret nofun fun _ => Or.inr herr
  | tcp _ _ _ => exact move .lock nofun nofun
  | udp _ _ _ => exact move .post nofun nofun
  | lock _ => exact .emit ((move .enqueue nofun nofun).setPcbs .set)
  | enqueue _ => exact hs.post hth rfl rfl
  | wait _ => exact .emit ((move .unlock (fun _ => rfl) keep).setPcbs .set)
  | unlock => exact (move .ret (fun _ => rfl) keep).setPcbs .set
  | post _ => exact hs.post hth rfl rfl
  | ret =>
      refine hs.ret hth ?_
      intro hok
      rcases keep rfl with hw | herr
      · exact hw
      · rw [herr] at hok
        cases hok

/-- The methods other than `Write`. -/
theorem LoopKept.writesOk (h : LoopKept Event.ofReadClose s t) (hwrites : WritesKept s t)
    (hs : s.WritesOk) : t.WritesOk := by
  have hold : Writers t.pcbs t.threads s.bufs s.nextWrite s.trace :=
    (hs.setPcbs h.pcbs).mono fun u p w pc hu => (hwrites.threads u p w pc).mp hu
  rw [Sys.WritesOk, hwrites.bufs, hwrites.nextWrite]
  refine h.trace.ind hold fun tr ev hev hs => ?_
  cases ev <;> first | contradiction | exact hs.emit

/-- The loop and lwIP. -/
theorem CallsKept.writesOk (h : CallsKept s t)
    (hpcbs : Writers t.pcbs s.threads s.bufs s.nextWrite s.trace) : t.WritesOk := by
  rw [Sys.WritesOk, h.threads, h.bufs, h.nextWrite]
  refine h.trace.ind hpcbs fun tr ev hev hs => ?_
  cases ev <;> first | contradiction | exact hs.emit

theorem Step.writesOk {a : Act} (h : Step cfg s a t) (hs : s.WritesOk) (hknown : s.InUse) :
    t.WritesOk := by
  by_cases ha : a.ofGoroutine = false
  · refine (h.callsKept ha).writesOk ?_
    rcases h.pcbsKept with ⟨hkept, _⟩ | ⟨_, hpcbs, _⟩
    · exact hs.setPcbs hkept
    · rw [hpcbs]
      exact hs.newPcb hknown.threads
  cases h with
  | callRead _ _ => exact hs.setThread
  | callWrite _ _ => exact hs.start
  | callClose _ _ => exact .emit hs.setThread
  | callIntercept _ _ => exact hs.setThread
  | read hth h => exact h.loopKept.writesOk (h.writesKept hth) hs
  | write hth h => exact h.writesOk hth hs
  | close _ h =>
      have hclosed := h.loopKept.writesOk h.writesKept hs
      exact hclosed.setThread
  | closed _ => exact .setThread (hs.setPcbs .set)
  | closePost _ _ => exact hs.setThread
  | intercept hth h => exact h.loopKept.writesOk (h.writesKept hth) hs
  | reuse _ _ => exact { hs with toCalls := hs.toCalls.setData }
  | userRecv _ => exact hs
  | _ => exact absurd rfl ha

theorem reachable_writesOk (h : (bridge cfg).Reachable s) : s.WritesOk := by
  refine h.invariant_of reachable_inOrder ?_ ?_
  · exact ⟨⟨nofun, nofun, nofun⟩, nofun, List.nodup_nil, nofun, nofun⟩
  · intro s a t hs _ hwrites hstep
    exact (step_cases hs hstep).writesOk hwrites hs.known

end LwipCs
