import LwipCs.Bridge.Goroutine

/-!
# What a goroutine can do

One constructor for each branch of each method, with the fields it changes. The
inversion theorems say that a method has no other step.
-/

namespace LwipCs

open Interleave

/-- The steps of `PCB.Read`. -/
inductive ReadStep (s : Sys) (t : Tid) (p : PcbId) (len : Nat) : ReadPc → Sys → Prop
  | intercepted (hinter : (s.pcbs p).recvInter = true) :
      ReadStep s t p len .inter { s with panic := some .intercepted }
  | enter (hinter : (s.pcbs p).recvInter = false) :
      ReadStep s t p len .inter
        { s with threads := Function.update s.threads t (.read p len .test) }
  | closed (herr : (s.pcbs p).err = true) :
      ReadStep s t p len .test
        { s with
          trace := s.trace ++ [.readErr t p]
          threads := Function.update s.threads t .idle }
  | isOpen (herr : (s.pcbs p).err = false) :
      ReadStep s t p len .test
        { s with threads := Function.update s.threads t (.read p len .load) }
  | load : 
      ReadStep s t p len .load
        { s with
          threads := Function.update s.threads t (.read p len (.recv (s.pcbs p).recvQueued)) }
  | nothing {r : RecvChan} {ch : Chan Bytes} {chunk : Option Bytes}
      (hrecv : (s.chans r).recv = .done (chunk, ch)) (hnil : chunk = none ∨ chunk = some []) :
      ReadStep s t p len (.recv r)
        { s with
          chans := Function.update s.chans r ch
          threads := Function.update s.threads t (.read p len .errRet) }
  | tooSmall {r : RecvChan} {ch : Chan Bytes} {data : Bytes}
      (hrecv : (s.chans r).recv = .done (some data, ch)) (hlen : len < data.length) :
      ReadStep s t p len (.recv r)
        { s with chans := Function.update s.chans r ch, panic := some .bufferTooSmall }
  | chunk {r : RecvChan} {ch : Chan Bytes} {data : Bytes}
      (hrecv : (s.chans r).recv = .done (some data, ch)) (hdata : data ≠ [])
      (hlen : data.length ≤ len) (htype : (s.pcbs p).type = .tcp) :
      ReadStep s t p len (.recv r)
        { s with
          chans := Function.update s.chans r ch
          threads := Function.update s.threads t (.read p len (.credit data)) }
  | datagram {r : RecvChan} {ch : Chan Bytes} {data : Bytes}
      (hrecv : (s.chans r).recv = .done (some data, ch)) (hdata : data ≠ [])
      (hlen : data.length ≤ len) (htype : (s.pcbs p).type = .udp) :
      ReadStep s t p len (.recv r)
        { s with
          chans := Function.update s.chans r ch
          trace := s.trace ++ [.readOk t p data]
          threads := Function.update s.threads t .idle }
  | errRet (herr : (s.pcbs p).err = true) :
      ReadStep s t p len .errRet
        { s with
          trace := s.trace ++ [.readErr t p]
          threads := Function.update s.threads t .idle }
  | nilRet (herr : (s.pcbs p).err = false) :
      ReadStep s t p len .errRet
        { s with
          trace := s.trace ++ [.readNil t p]
          threads := Function.update s.threads t .idle }
  | credit {data : Bytes} {q : Chan RecvedEntry}
      (hsend : s.recvedQueue.send ⟨p, data.length⟩ = .done q) :
      ReadStep s t p len (.credit data)
        { s with
          recvedQueue := q
          trace := s.trace ++ [.readOk t p data]
          threads := Function.update s.threads t .idle }

theorem readStep_cases {s s' : Sys} {t : Tid} {p : PcbId} {len : Nat} {pc : ReadPc}
    (h : s.readStep t p len pc = some s') : ReadStep s t p len pc s' := by
  cases pc with
  | inter =>
      simp only [Sys.readStep] at h
      split at h
      · next hinter => cases h; exact .intercepted hinter
      · next hinter => cases h; exact .enter (by simpa using hinter)
  | test =>
      simp only [Sys.readStep] at h
      split at h
      · next herr => cases h; exact .closed herr
      · next herr => cases h; exact .isOpen (by simpa using herr)
  | load => cases h; exact .load
  | recv r =>
      simp only [Sys.readStep] at h
      split at h
      · next chunk ch hrecv =>
          split at h
          · cases h; exact .nothing hrecv (Or.inl rfl)
          · cases h; exact .nothing hrecv (Or.inr rfl)
          · next data hdata =>
              have hdata : data ≠ [] := fun h => hdata (by rw [h])
              split at h
              · next hlen => cases h; exact .tooSmall hrecv hlen
              · next hlen =>
                  have hlen : data.length ≤ len := Nat.le_of_not_lt hlen
                  split at h
                  · next htype => cases h; exact .chunk hrecv hdata hlen htype
                  · next htype => cases h; exact .datagram hrecv hdata hlen htype
      · cases h
  | errRet =>
      simp only [Sys.readStep] at h
      split at h
      · next herr => cases h; exact .errRet herr
      · next herr => cases h; exact .nilRet (by simpa using herr)
  | credit data =>
      simp only [Sys.readStep] at h
      split at h
      · next q hsend => cases h; exact .credit hsend
      · cases h

/-- The steps of `PCB.Write`. -/
inductive WriteStep (s : Sys) (t : Tid) (p : PcbId) (w : WriteId) : WritePc → Sys → Prop
  | empty (hdata : (s.bufs w).data = []) :
      WriteStep s t p w .test
        { s with
          trace := s.trace ++ [.writeRet p w (s.bufs w).data false]
          bufs := Function.update s.bufs w { s.bufs w with inUse := false }
          threads := Function.update s.threads t .idle }
  | closed (hdata : (s.bufs w).data ≠ []) (herr : (s.pcbs p).err = true) :
      WriteStep s t p w .test
        { s with threads := Function.update s.threads t (.write p w .ret) }
  | tcp (hdata : (s.bufs w).data ≠ []) (herr : (s.pcbs p).err = false)
      (htype : (s.pcbs p).type = .tcp) :
      WriteStep s t p w .test
        { s with threads := Function.update s.threads t (.write p w .lock) }
  | udp (hdata : (s.bufs w).data ≠ []) (herr : (s.pcbs p).err = false)
      (htype : (s.pcbs p).type = .udp) :
      WriteStep s t p w .test
        { s with threads := Function.update s.threads t (.write p w .post) }
  | lock (hlck : (s.pcbs p).lck = none) :
      WriteStep s t p w .lock
        { s with
          pcbs := Function.update s.pcbs p { s.pcbs p with lck := some (.goroutine t) }
          trace := s.trace ++ [.locked p w (s.bufs w).data]
          threads := Function.update s.threads t (.write p w .enqueue) }
  | enqueue {q : Chan SendEntry} (hsend : s.sendQueue.send ⟨p, w⟩ = .done q) :
      WriteStep s t p w .enqueue
        { s with
          sendQueue := q
          trace := s.trace ++ [.enqueued p w]
          threads := Function.update s.threads t (.write p w .wait) }
  | wait {r : Option Unit} {ch : Chan Unit} (hrecv : (s.pcbs p).sendWait.recv = .done (r, ch)) :
      WriteStep s t p w .wait
        { s with
          pcbs := Function.update s.pcbs p { s.pcbs p with sendWait := ch }
          trace := s.trace ++ [.released p w (s.bufs w).data]
          threads := Function.update s.threads t (.write p w .unlock) }
  | unlock :
      WriteStep s t p w .unlock
        { s with
          pcbs := Function.update s.pcbs p { s.pcbs p with lck := none }
          threads := Function.update s.threads t (.write p w .ret) }
  | post {q : Chan SendEntry} (hsend : s.sendQueue.send ⟨p, w⟩ = .done q) :
      WriteStep s t p w .post
        { s with
          sendQueue := q
          trace := s.trace ++ [.enqueued p w]
          threads := Function.update s.threads t (.write p w .ret) }
  | ret :
      WriteStep s t p w .ret
        { s with
          trace := s.trace ++ [.writeRet p w (s.bufs w).data (!(s.pcbs p).err)]
          bufs := Function.update s.bufs w { s.bufs w with inUse := false }
          threads := Function.update s.threads t .idle }

theorem writeStep_cases {s s' : Sys} {t : Tid} {p : PcbId} {w : WriteId} {pc : WritePc}
    (h : s.writeStep t p w pc = some s') : WriteStep s t p w pc s' := by
  cases pc with
  | test =>
      simp only [Sys.writeStep] at h
      split at h
      · next hlen =>
          cases h
          exact .empty (List.length_eq_zero_iff.mp (by omega))
      · next hlen =>
          have hdata : (s.bufs w).data ≠ [] := List.ne_nil_of_length_pos (by omega)
          split at h
          · next herr => cases h; exact .closed hdata herr
          · next herr =>
              have herr : (s.pcbs p).err = false := by simpa using herr
              split at h
              · next htype => cases h; exact .tcp hdata herr htype
              · next htype => cases h; exact .udp hdata herr htype
  | lock =>
      simp only [Sys.writeStep] at h
      split at h
      · next hlck => cases h; exact .lock hlck
      · cases h
  | enqueue =>
      simp only [Sys.writeStep] at h
      split at h
      · next q hsend => cases h; exact .enqueue hsend
      · cases h
  | wait =>
      simp only [Sys.writeStep] at h
      split at h
      · next r ch hrecv => cases h; exact .wait hrecv
      · cases h
  | unlock => cases h; exact .unlock
  | post =>
      simp only [Sys.writeStep] at h
      split at h
      · next q hsend => cases h; exact .post hsend
      · cases h
  | ret => cases h; exact .ret

/-- The steps of `PCB.close`, the last component saying where it goes next. -/
inductive CloseStep (s : Sys) (who : Actor) (p : PcbId) : ClosePc → Sys → Option ClosePc → Prop
  | lock (hlck : (s.pcbs p).lck = none) :
      CloseStep s who p .lock
        { s with pcbs := Function.update s.pcbs p { s.pcbs p with lck := some who } } (some .test)
  | again (herr : (s.pcbs p).err = true) : CloseStep s who p .test s (some .unlock)
  | first (herr : (s.pcbs p).err = false) : CloseStep s who p .test s (some .setErr)
  | setErr :
      CloseStep s who p .setErr
        { s with
          pcbs := Function.update s.pcbs p { s.pcbs p with err := true }
          trace := s.trace ++ [.errSet p] } (some .closeRecv)
  | keepRecv (hinter : (s.pcbs p).recvInter = true) :
      CloseStep s who p .closeRecv s (some .closeWait)
  | closeRecv {ch : Chan Bytes} (hinter : (s.pcbs p).recvInter = false)
      (hclose : (s.chans (s.pcbs p).recvQueued).close = .done ch) :
      CloseStep s who p .closeRecv
        { s with chans := Function.update s.chans (s.pcbs p).recvQueued ch } (some .closeWait)
  | recvTwice (hinter : (s.pcbs p).recvInter = false)
      (hclose : (s.chans (s.pcbs p).recvQueued).closed = true) :
      CloseStep s who p .closeRecv { s with panic := some .closeOfClosed } (some .closeWait)
  | closeWait {ch : Chan Unit} (htype : (s.pcbs p).type = .tcp)
      (hclose : (s.pcbs p).sendWait.close = .done ch) :
      CloseStep s who p .closeWait
        { s with pcbs := Function.update s.pcbs p { s.pcbs p with sendWait := ch } } (some .unlock)
  | waitTwice (htype : (s.pcbs p).type = .tcp) (hclose : (s.pcbs p).sendWait.closed = true) :
      CloseStep s who p .closeWait { s with panic := some .closeOfClosed } (some .unlock)
  | udp (htype : (s.pcbs p).type = .udp) : CloseStep s who p .closeWait s (some .unlock)
  | unlock :
      CloseStep s who p .unlock
        { s with pcbs := Function.update s.pcbs p { s.pcbs p with lck := none } } none

theorem closeStep_cases {s s' : Sys} {who : Actor} {p : PcbId} {pc : ClosePc}
    {next : Option ClosePc} (h : s.closeStep who p pc = some (s', next)) :
    CloseStep s who p pc s' next := by
  cases pc with
  | lock =>
      simp only [Sys.closeStep] at h
      split at h
      · next hlck => cases h; exact .lock hlck
      · cases h
  | test =>
      simp only [Sys.closeStep] at h
      split at h
      · next herr => cases h; exact .again herr
      · next herr => cases h; exact .first (by simpa using herr)
  | setErr => cases h; exact .setErr
  | closeRecv =>
      simp only [Sys.closeStep] at h
      split at h
      · next hinter => cases h; exact .keepRecv hinter
      · next hinter =>
          have hinter : (s.pcbs p).recvInter = false := by simpa using hinter
          cases hclose : (s.chans (s.pcbs p).recvQueued).close with
          | blocked => exact absurd hclose Chan.close_ne_blocked
          | panics =>
              rw [hclose] at h
              cases h
              exact .recvTwice hinter (Chan.close_panics_iff.mp hclose)
          | done ch =>
              rw [hclose] at h
              cases h
              exact .closeRecv hinter hclose
  | closeWait =>
      simp only [Sys.closeStep] at h
      split at h
      · next htype =>
          cases hclose : (s.pcbs p).sendWait.close with
          | blocked => exact absurd hclose Chan.close_ne_blocked
          | panics =>
              rw [hclose] at h
              cases h
              exact .waitTwice htype (Chan.close_panics_iff.mp hclose)
          | done ch =>
              rw [hclose] at h
              cases h
              exact .closeWait htype hclose
      · next htype => cases h; exact .udp htype
  | unlock => cases h; exact .unlock

/-- The steps of `PCB.Intercept`. -/
inductive InterceptStep (s : Sys) (t : Tid) (p : PcbId) (c : Nat) : InterPc → Sys → Prop
  | lock (hlck : (s.pcbs p).lck = none) :
      InterceptStep s t p c .lock
        { s with
          pcbs := Function.update s.pcbs p { s.pcbs p with lck := some (.goroutine t) }
          threads := Function.update s.threads t (.intercept p c .test) }
  | twice (hinter : (s.pcbs p).recvInter = true) :
      InterceptStep s t p c .test
        { s with
          pcbs := Function.update s.pcbs p { s.pcbs p with lck := none }
          threads := Function.update s.threads t .idle
          panic := some .intercepted }
  | test (hinter : (s.pcbs p).recvInter = false) :
      InterceptStep s t p c .test
        { s with threads := Function.update s.threads t (.intercept p c .set) }
  | set :
      InterceptStep s t p c .set
        { s with
          pcbs := Function.update s.pcbs p { s.pcbs p with recvInter := true }
          threads := Function.update s.threads t (.intercept p c .closeOld) }
  | closeOld {ch : Chan Bytes} (hclose : (s.chans (s.pcbs p).recvQueued).close = .done ch) :
      InterceptStep s t p c .closeOld
        { s with
          chans := Function.update s.chans (s.pcbs p).recvQueued ch
          threads := Function.update s.threads t (.intercept p c .swap) }
  | closedOld (hclose : (s.chans (s.pcbs p).recvQueued).closed = true) :
      InterceptStep s t p c .closeOld { s with panic := some .closeOfClosed }
  | swap :
      InterceptStep s t p c .swap
        { s with
          pcbs := Function.update s.pcbs p { s.pcbs p with recvQueued := .user c }
          threads := Function.update s.threads t (.intercept p c .unlock) }
  | unlock :
      InterceptStep s t p c .unlock
        { s with
          pcbs := Function.update s.pcbs p { s.pcbs p with lck := none }
          threads := Function.update s.threads t .idle }

theorem interceptStep_cases {s s' : Sys} {t : Tid} {p : PcbId} {c : Nat} {pc : InterPc}
    (h : s.interceptStep t p c pc = some s') : InterceptStep s t p c pc s' := by
  cases pc with
  | lock =>
      simp only [Sys.interceptStep] at h
      split at h
      · next hlck => cases h; exact .lock hlck
      · cases h
  | test =>
      simp only [Sys.interceptStep] at h
      split at h
      · next hinter => cases h; exact .twice hinter
      · next hinter => cases h; exact .test (by simpa using hinter)
  | set => cases h; exact .set
  | closeOld =>
      cases hclose : (s.chans (s.pcbs p).recvQueued).close with
      | blocked => exact absurd hclose Chan.close_ne_blocked
      | panics =>
          simp only [Sys.interceptStep, hclose] at h
          cases h
          exact .closedOld (Chan.close_panics_iff.mp hclose)
      | done ch =>
          simp only [Sys.interceptStep, hclose] at h
          cases h
          exact .closeOld hclose
  | swap => cases h; exact .swap
  | unlock => cases h; exact .unlock

end LwipCs
