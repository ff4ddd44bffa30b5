import LwipCs.Csocks.State

/-!
# Everything the DNS processor can do

`Step lib s a t` lists the steps with their results. The invariants of the
machine are case analyses of this relation.
-/

namespace LwipCs

namespace Csocks

open Interleave

inductive Step (lib : Lib) (s : Sys) : Act → Sys → Prop
  | accepted {type : PcbType} {ip : NetIP} {port : UInt16} {addr : Nat}
      (hroute : onAccept lib s.record type ip port ≠ .dns) :
      Step lib s (.accept type ip port addr)
        { s with
          trace := s.trace ++ [.accepted type ip port (onAccept lib s.record type ip port)] }
  | served {type : PcbType} {ip : NetIP} {port : UInt16} {addr : Nat}
      (hroute : onAccept lib s.record type ip port = .dns) (hfree : s.free addr = true) :
      Step lib s (.accept type ip port addr)
        { s with
          addr := Function.update s.addr s.nextClient addr
          loops := Function.update s.loops s.nextClient .read
          nextClient := s.nextClient + 1
          trace := s.trace ++ [.accepted type ip port .dns] }
  /-- `Read` or `Unpack` failed -/
  | ended {r : ClientId} {data : Option Bytes} (hpc : s.loops r = .read)
      (hdata : ∀ buf, data = some buf → lib.unpack buf = none) :
      Step lib s (.recv r data) { s with loops := Function.update s.loops r .off }
  | noQuestion {r : ClientId} {buf : Bytes} {msg : Msg} (hpc : s.loops r = .read)
      (hmsg : lib.unpack buf = some msg) (hempty : msg.question = []) :
      Step lib s (.recv r (some buf)) { s with panic := some .indexOutOfRange }
  | received {r : ClientId} {buf : Bytes} {msg : Msg} {name : Text} {more : List Text}
      (hpc : s.loops r = .read) (hlen : buf.length ≤ 4096) (hmsg : lib.unpack buf = some msg)
      (hname : msg.question = name :: more) :
      Step lib s (.recv r (some buf))
        { s with
          loops := Function.update s.loops r (.target ⟨s.nextQuery, r, buf⟩ name)
          nextQuery := s.nextQuery + 1
          trace := s.trace ++ [.received ⟨s.nextQuery, r, buf⟩] }
  | found {r : ClientId} {q : Query} {name target : Text} (hpc : s.loops r = .target q name) :
      Step lib s (.target r target)
        { s with
          loops := Function.update s.loops r (.lookup q target)
          trace := s.trace ++ [.found q name target] }
  | hit {r : ClientId} {q : Query} {target : Text} {c : DnsId} (hpc : s.loops r = .lookup q target)
      (hentry : s.conns (connKey (s.addr r) target) = some c) :
      Step lib s (.lookup r) { s with loops := Function.update s.loops r (.push q c) }
  | missed {r : ClientId} {q : Query} {target : Text} (hpc : s.loops r = .lookup q target)
      (hentry : s.conns (connKey (s.addr r) target) = none) :
      Step lib s (.lookup r) { s with loops := Function.update s.loops r (.create q target) }
  | refused {r : ClientId} {q : Query} {target : Text} (hpc : s.loops r = .create q target) :
      Step lib s (.create r) { s with loops := Function.update s.loops r .read }
  | opened {r : ClientId} {q : Query} {target : Text} {route : Route}
      (hpc : s.loops r = .create q target) (hroute : pacProcessor lib s.record target = route) :
      Step lib s (.create r)
        { s with
          loops := Function.update s.loops r (.calling q s.nextConn)
          objs := Function.update s.objs s.nextConn
            (some (newDNSConn (connKey (s.addr r) target) r target))
          nextConn := s.nextConn + 1
          trace := s.trace ++ [.opened s.nextConn route] }
  | failed {r : ClientId} {q : Query} {c : DnsId} (hpc : s.loops r = .calling q c) :
      Step lib s (.returned r false) { s with loops := Function.update s.loops r .read }
  | returned {r : ClientId} {q : Query} {c : DnsId} (hpc : s.loops r = .calling q c) :
      Step lib s (.returned r true) { s with loops := Function.update s.loops r (.store q c) }
  | stored {r : ClientId} {q : Query} {c : DnsId} {o : DNSConn} (hpc : s.loops r = .store q c)
      (ho : s.objs c = some o) :
      Step lib s (.store r)
        { s with
          conns := Function.update s.conns o.key (some c)
          loops := Function.update s.loops r (.push q c) }
  | pushed {r : ClientId} {q : Query} {c : DnsId} {o : DNSConn} {ch : Chan Query}
      (hpc : s.loops r = .push q c) (ho : s.objs c = some o)
      (hsend : o.readQueued.send q = .done ch) :
      Step lib s (.push r)
        { s with
          objs := Function.update s.objs c (some { o with readQueued := ch })
          loops := Function.update s.loops r .read
          trace := s.trace ++ [.queued c q] }
  | pushClosed {r : ClientId} {q : Query} {c : DnsId} {o : DNSConn} (hpc : s.loops r = .push q c)
      (ho : s.objs c = some o) (hclosed : o.readQueued.closed = true) :
      Step lib s (.push r) { s with panic := some .sendOnClosed }
  | taken {c : DnsId} {o : DNSConn} {q : Query} {ch : Chan Query} (ho : s.objs c = some o)
      (hrecv : o.readQueued.recv = .done (some q, ch)) :
      Step lib s (.connRead c)
        { s with
          objs := Function.update s.objs c (some { o with readQueued := ch })
          trace := s.trace ++ [.taken c q] }
  | drained {c : DnsId} : Step lib s (.connRead c) s
  | responded {i : Nat} {c : DnsId} {p : Bytes} {o : DNSConn} (ho : s.objs c = some o) :
      Step lib s (.respond i c p)
        { s with
          record := s.record.recordMsg lib p
          writers := Function.update s.writers i (some (c, p))
          trace := s.trace ++ [.answered c p] }
  | relayed {i : Nat} {c : DnsId} {p : Bytes} {o : DNSConn} (hpc : s.writers i = some (c, p))
      (ho : s.objs c = some o) :
      Step lib s (.written i true)
        { s with
          writers := Function.update s.writers i none
          trace := s.trace ++ [.relayed c o.base p] }
  | writeFailed {i : Nat} :
      Step lib s (.written i false) { s with writers := Function.update s.writers i none }
  | close {t : Nat} {c : DnsId} (hidle : s.closers t = .idle) (hsome : (s.objs c).isSome) :
      Step lib s (.close t c) { s with closers := Function.update s.closers t (.test c) }
  | tested {t : Nat} {c : DnsId} {o : DNSConn} (hpc : s.closers t = .test c)
      (ho : s.objs c = some o) (hopen : o.closed = false) :
      Step lib s (.closeStep t) { s with closers := Function.update s.closers t (.mark c) }
  | testedClosed {t : Nat} {c : DnsId} (hpc : s.closers t = .test c) :
      Step lib s (.closeStep t) { s with closers := Function.update s.closers t .idle }
  | marked {t : Nat} {c : DnsId} {o : DNSConn} (hpc : s.closers t = .mark c)
      (ho : s.objs c = some o) :
      Step lib s (.closeStep t)
        { s with
          objs := Function.update s.objs c (some { o with closed := true })
          closers := Function.update s.closers t (.closeQueue c) }
  | queueClosed {t : Nat} {c : DnsId} {o : DNSConn} {ch : Chan Query}
      (hpc : s.closers t = .closeQueue c) (ho : s.objs c = some o)
      (hclose : o.readQueued.close = .done ch) :
      Step lib s (.closeStep t)
        { s with
          objs := Function.update s.objs c (some { o with readQueued := ch })
          closers := Function.update s.closers t (.delete c) }
  | closedTwice {t : Nat} {c : DnsId} {o : DNSConn} (hpc : s.closers t = .closeQueue c)
      (ho : s.objs c = some o) (hclosed : o.readQueued.closed = true) :
      Step lib s (.closeStep t) { s with panic := some .closeOfClosed }
  | deleted {t : Nat} {c : DnsId} {o : DNSConn} (hpc : s.closers t = .delete c)
      (ho : s.objs c = some o) :
      Step lib s (.closeStep t)
        { s with
          conns := Function.update s.conns o.key none
          closers := Function.update s.closers t .idle }

variable {lib : Lib} {s t : Sys} {a : Act}

namespace Sys

/-- No step is taken after a panic. -/
theorem alive_of_step (h : s.step lib a = some t) : s.panic = none ∧ s.act lib a = some t := by
  unfold step at h
  split at h
  · rename_i halive
    exact ⟨halive, h⟩
  · cases h

theorem accept_step {type : PcbType} {ip : NetIP} {port : UInt16} {addr : Nat}
    (h : s.accept lib type ip port addr = some t) :
    Step lib s (.accept type ip port addr) t := by
  simp only [accept] at h
  split at h
  · rename_i hroute
    split at h
    · rename_i hfree
      cases h
      rw [hroute]
      exact .served hroute hfree
    · cases h
  · rename_i hroute
    cases h
    exact .accepted hroute

theorem recv_step {r : ClientId} {data : Option Bytes} (h : s.recv lib r data = some t) :
    Step lib s (.recv r data) t := by
  unfold recv at h
  split at h
  · rename_i hpc
    cases data with
    | none =>
        cases h
        exact .ended hpc nofun
    | some buf =>
        simp only at h
        split at h
        · cases h
        · rename_i hlen
          split at h
          · rename_i hbad
            cases h
            refine .ended hpc ?_
            rintro _ ⟨⟩
            exact hbad
          · rename_i msg hmsg
            split at h
            · rename_i hempty
              cases h
              exact .noQuestion hpc hmsg hempty
            · rename_i name more hname
              cases h
              exact .received hpc (by omega) hmsg hname
  · cases h

theorem target_step {r : ClientId} {target : Text} (h : s.target r target = some t) :
    Step lib s (.target r target) t := by
  unfold Sys.target at h
  split at h
  · rename_i q name hpc
    cases h
    exact .found hpc
  · cases h

theorem lookup_step {r : ClientId} (h : s.lookup r = some t) : Step lib s (.lookup r) t := by
  unfold lookup at h
  split at h
  · rename_i q target hpc
    split at h
    · rename_i c hentry
      cases h
      exact .hit hpc hentry
    · rename_i hentry
      cases h
      exact .missed hpc hentry
  · cases h

theorem create_step {r : ClientId} (h : s.create lib r = some t) : Step lib s (.create r) t := by
  unfold create at h
  split at h
  · rename_i q target hpc
    split at h
    · cases h
      exact .refused hpc
    · cases h
      exact .opened hpc rfl
  · cases h

theorem returned_step {r : ClientId} {ok : Bool} (h : s.returned r ok = some t) :
    Step lib s (.returned r ok) t := by
  unfold returned at h
  split at h
  · rename_i q c hpc
    cases h
    cases ok with
    | true => exact .returned hpc
    | false => exact .failed hpc
  · cases h

theorem store_step {r : ClientId} (h : s.store r = some t) : Step lib s (.store r) t := by
  unfold store at h
  split at h
  · rename_i q c hpc
    obtain ⟨o, ho, rfl⟩ := Option.map_eq_some_iff.mp h
    exact .stored hpc ho
  · cases h

theorem push_step {r : ClientId} (h : s.push r = some t) : Step lib s (.push r) t := by
  unfold push at h
  split at h
  · rename_i q c hpc
    obtain ⟨o, ho, h⟩ := Option.bind_eq_some_iff.mp h
    split at h
    · rename_i ch hsend
      cases h
      exact .pushed hpc ho hsend
    · rename_i hpanic
      cases h
      exact .pushClosed hpc ho (Chan.send_panics_iff.mp hpanic)
    · cases h
  · cases h

theorem connRead_step {c : DnsId} (h : s.connRead c = some t) : Step lib s (.connRead c) t := by
  unfold connRead at h
  obtain ⟨o, ho, h⟩ := Option.bind_eq_some_iff.mp h
  split at h
  · rename_i q ch hrecv
    cases h
    exact .taken ho hrecv
  · cases h
    exact .drained
  · cases h

theorem respond_step {i : Nat} {c : DnsId} {p : Bytes} (h : s.respond lib i c p = some t) :
    Step lib s (.respond i c p) t := by
  unfold respond at h
  split at h
  · rename_i hcall
    obtain ⟨o, ho⟩ := Option.isSome_iff_exists.mp hcall.2
    cases h
    exact .responded ho
  · cases h

theorem written_step {i : Nat} {ok : Bool} (h : s.written i ok = some t) :
    Step lib s (.written i ok) t := by
  unfold written at h
  split at h
  · rename_i c p hpc
    obtain ⟨o, ho, rfl⟩ := Option.map_eq_some_iff.mp h
    cases ok with
    | true => exact .relayed hpc ho
    | false => exact .writeFailed
  · cases h

theorem close_step {i : Nat} {c : DnsId} (h : s.close i c = some t) :
    Step lib s (.close i c) t := by
  unfold close at h
  split at h
  · rename_i hcall
    cases h
    exact .close hcall.1 hcall.2
  · cases h

theorem closeStep_step {i : Nat} (h : s.closeStep i = some t) : Step lib s (.closeStep i) t := by
  unfold closeStep at h
  split at h
  · cases h
  · rename_i c hpc
    obtain ⟨o, ho, rfl⟩ := Option.map_eq_some_iff.mp h
    cases hclosed : o.closed with
    | true => exact .testedClosed hpc
    | false => exact .tested hpc ho hclosed
  · rename_i c hpc
    obtain ⟨o, ho, rfl⟩ := Option.map_eq_some_iff.mp h
    exact .marked hpc ho
  · rename_i c hpc
    obtain ⟨o, ho, h⟩ := Option.bind_eq_some_iff.mp h
    split at h
    · rename_i ch hclose
      cases h
      exact .queueClosed hpc ho hclose
    · rename_i hpanic
      cases h
      exact .closedTwice hpc ho (Chan.close_panics_iff.mp hpanic)
    · cases h
  · rename_i c hpc
    obtain ⟨o, ho, rfl⟩ := Option.map_eq_some_iff.mp h
    exact .deleted hpc ho

/-- Every step of the machine is listed. -/
theorem step_cases (h : s.step lib a = some t) : Step lib s a t := by
  have hact := (alive_of_step h).2
  cases a with
  | accept type ip port addr => exact accept_step hact
  | recv r data => exact recv_step hact
  | target r target => exact target_step hact
  | lookup r => exact lookup_step hact
  | create r => exact create_step hact
  | returned r ok => exact returned_step hact
  | store r => exact store_step hact
  | push r => exact push_step hact
  | connRead c => exact connRead_step hact
  | respond i c p => exact respond_step hact
  | written i ok => exact written_step hact
  | close i c => exact close_step hact
  | closeStep i => exact closeStep_step hact

end Sys

end Csocks

end LwipCs
