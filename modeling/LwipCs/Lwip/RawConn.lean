import LwipCs.Interleave.Machine
import LwipCs.Lwip.TcpRaw

/-!
# One connection of the C layer

The functions of `tcp.c` on the state object of one connection, under any sequence of
callbacks and of calls of `cs_tcp_char_send`, with any answers of lwIP. The handlers
behind `es->callback` change nothing of the object. Once it is freed lwIP has no
callback of the connection and nothing calls into it.
-/

namespace LwipCs

open Interleave

/-- The state object, `none` once it is freed, and the history of the connection. -/
structure RawConn where
  es : Option RawState
  /-- the bytes copied by the calls of `cs_tcp_char_send` that returned 0 -/
  took : Bytes
  /-- the bytes handed to `tcp_write` -/
  wrote : Bytes
  /-- whether the error callback closed it -/
  failed : Bool
  deriving DecidableEq, Repr

/-- A call into the C layer for the connection, with the answers of `pbuf_alloc`,
`tcp_sndbuf` and `tcp_write`. -/
inductive RawCall
  | charSend (buf : Bytes) (alloc : Bool) (sndbuf : Nat) (writes : List ErrT)
  | recv (p : Option Bytes) (err : ErrT)
  | sent (sndbuf : Nat) (writes : List ErrT)
  | poll (sndbuf : Nat) (writes : List ErrT)
  | err
  deriving DecidableEq, Repr

namespace RawConn

/-- `cs_tcp_raw_send`. -/
def rawSend (lwip : Lwip) (c : RawConn) (es : RawState) (sndbuf : Nat) (writes : List ErrT) :
    RawConn :=
  let run := csTcpRawSend lwip es.p sndbuf writes
  { c with es := some { es with p := run.p }, wrote := c.wrote ++ run.wrote.flatten }

/-- `cs_tcp_raw_close` frees the object, its chain included. -/
def csTcpRawClose (c : RawConn) : RawConn := { c with es := none }

/-- `cs_tcp_char_send`, with its result. -/
def csTcpCharSend (lwip : Lwip) (c : RawConn) (es : RawState) (buf : Bytes) (alloc : Bool)
    (sndbuf : Nat) (writes : List ErrT) : RawConn × Nat :=
  if es.p ≠ [] then (c, 100)
  else if alloc then
    (({ c with took := c.took ++ accepted buf }).rawSend lwip { es with p := charChain lwip buf }
      sndbuf writes, 0)
  else (c, 1)

/-- `cs_tcp_raw_recv`. With a pbuf lwIP reports no error, as `LWIP_ASSERT` demands. -/
def csTcpRawRecv (c : RawConn) (es : RawState) (p : Option Bytes) (err : ErrT) : Option RawConn :=
  match p with
  | none => some (({ c with es := some { es with state := .closing } }).csTcpRawClose)
  | some _ =>
      if err ≠ .ok then none
      else match es.state with
        | .accepted => some { c with es := some { es with state := .received } }
        | _ => some c

/-- `cs_tcp_send`. -/
def csTcpSend (lwip : Lwip) (c : RawConn) (es : RawState) (sndbuf : Nat) (writes : List ErrT) :
    RawConn :=
  if es.p ≠ [] then c.rawSend lwip es sndbuf writes
  else if es.state = .closing then c.csTcpRawClose
  else c

/-- `cs_tcp_raw_poll`. -/
def csTcpRawPoll (lwip : Lwip) (c : RawConn) (es : RawState) (sndbuf : Nat)
    (writes : List ErrT) : RawConn :=
  if es.p ≠ [] then c.rawSend lwip es sndbuf writes
  else if es.state = .closing then c.csTcpRawClose
  else c

/-- One call on the connection while its object exists. -/
def step (lwip : Lwip) (c : RawConn) (call : RawCall) : Option RawConn :=
  c.es.bind fun es =>
    match call with
    | .charSend buf alloc sndbuf writes => some (c.csTcpCharSend lwip es buf alloc sndbuf writes).1
    | .recv p err => c.csTcpRawRecv es p err
    | .sent sndbuf writes => some (c.csTcpSend lwip es sndbuf writes)
    | .poll sndbuf writes => some (c.csTcpRawPoll lwip es sndbuf writes)
    | .err => some ({ c with failed := true }).csTcpRawClose

end RawConn

/-- The connection `k` that `cs_tcp_raw_accept` got the pcb `a` for. -/
def rawConn (lwip : Lwip) (k : ConnId) (a : Ptr) : Machine RawConn RawCall :=
  ⟨⟨some ⟨.accepted, a, [], k⟩, [], [], false⟩, RawConn.step lwip⟩

/-- The bytes taken from the Go side were all handed to `tcp_write` before the object was
freed, unless the error callback freed it. -/
def RawConn.Graceful (c : RawConn) : Prop := c.es = none → c.failed = false → c.wrote = c.took

/-- The peer's FIN finds no bytes in `es->p`. -/
def FinDrained (c : RawConn) : RawCall → Prop
  | .recv none _ => ∀ es, c.es = some es → chainBytes es.p = []
  | _ => True

/-- What was taken and not handed to `tcp_write` is in `es->p`. -/
structure RawConn.Accounted (c : RawConn) (es : RawState) : Prop where
  single : Single es.p
  bytes : c.took = c.wrote ++ chainBytes es.p
  failed : c.failed = false
  isOpen : es.state ≠ .closing

namespace RawConn

variable {lwip : Lwip} {k : ConnId} {a : Ptr} {c c' : RawConn} {es es' : RawState} {sndbuf : Nat}
variable {writes : List ErrT} {call : RawCall}

theorem rawSend_accounted (h : c.Accounted es)
    (hes : (c.rawSend lwip es sndbuf writes).es = some es') :
    (c.rawSend lwip es sndbuf writes).Accounted es' := by
  obtain rfl : { es with p := (csTcpRawSend lwip es.p sndbuf writes).p } = es' :=
    Option.some.inj hes
  refine ⟨csTcpRawSend_single h.single sndbuf writes, ?_, h.failed, h.isOpen⟩
  show c.took = c.wrote ++ (csTcpRawSend lwip es.p sndbuf writes).wrote.flatten ++
    chainBytes (csTcpRawSend lwip es.p sndbuf writes).p
  rw [List.append_assoc, csTcpRawSend_bytes h.single, h.bytes]

/-- `cs_tcp_send` and `cs_tcp_raw_poll` on an open connection. -/
theorem resumed_accounted (h : c.Accounted es) (hes : c.es = some es)
    (hes' : (if es.p ≠ [] then c.rawSend lwip es sndbuf writes
      else if es.state = .closing then c.csTcpRawClose else c).es = some es') :
    (if es.p ≠ [] then c.rawSend lwip es sndbuf writes
      else if es.state = .closing then c.csTcpRawClose else c).Accounted es' := by
  by_cases hp : es.p ≠ []
  · rw [if_pos hp] at hes' ⊢
    exact rawSend_accounted h hes'
  · rw [if_neg hp, if_neg h.isOpen] at hes' ⊢
    rw [hes] at hes'
    cases hes'
    exact h

/-- `cs_tcp_char_send` appends what it takes. -/
theorem charSend_accounted {buf : Bytes} {alloc : Bool} (h : c.Accounted es) (hes : c.es = some es)
    (hes' : (c.csTcpCharSend lwip es buf alloc sndbuf writes).1.es = some es') :
    (c.csTcpCharSend lwip es buf alloc sndbuf writes).1.Accounted es' := by
  unfold csTcpCharSend at hes' ⊢
  by_cases hp : es.p ≠ []
  · rw [if_pos hp] at hes' ⊢
    rw [hes] at hes'
    cases hes'
    exact h
  · rw [if_neg hp] at hes' ⊢
    cases alloc with
    | true =>
        refine rawSend_accounted ⟨charChain_single lwip buf, ?_, h.failed, h.isOpen⟩ hes'
        have hempty : es.p = [] := by simpa using hp
        rw [chainBytes_charChain, h.bytes, hempty, chainBytes_nil, List.append_nil]
    | false =>
        rw [if_neg Bool.false_ne_true] at hes' ⊢
        rw [hes] at hes'
        cases hes'
        exact h

theorem step_accounted (h : ∀ es, c.es = some es → c.Accounted es)
    (hstep : c.step lwip call = some c') (hes' : c'.es = some es') : c'.Accounted es' := by
  obtain ⟨es, hes, hcall⟩ := Option.bind_eq_some_iff.mp hstep
  have hacc := h es hes
  cases call with
  | charSend buf alloc sndbuf writes =>
      cases hcall
      exact charSend_accounted hacc hes hes'
  | recv p err =>
      cases p with
      | none =>
          cases hcall
          cases hes'
      | some data =>
          simp only [csTcpRawRecv] at hcall
          split at hcall
          · cases hcall
          · split at hcall
            · cases hcall
              cases hes'
              exact { hacc with isOpen := nofun }
            · cases hcall
              rw [hes] at hes'
              cases hes'
              exact hacc
  | sent sndbuf writes =>
      cases hcall
      exact resumed_accounted hacc hes hes'
  | poll sndbuf writes =>
      cases hcall
      exact resumed_accounted hacc hes hes'
  | err =>
      cases hcall
      cases hes'

theorem reachable_accounted (h : (rawConn lwip k a).Reachable c) :
    ∀ es, c.es = some es → c.Accounted es := by
  refine h.invariant ?_ fun c call c' hs hstep es' hes' => step_accounted hs hstep hes'
  rintro _ ⟨⟩
  exact ⟨single_nil, rfl, rfl, nofun⟩

/-- Only the peer's FIN and the error callback free the object. -/
theorem freed_cases (h : c.Accounted es) (hes : c.es = some es) (hstep : c.step lwip call = some c')
    (hfreed : c'.es = none) : (∃ err, call = .recv none err ∧ c' = { c with es := none }) ∨
      (call = .err ∧ c' = { c with es := none, failed := true }) := by
  have resumed : ∀ {sndbuf writes}, (if es.p ≠ [] then c.rawSend lwip es sndbuf writes
      else if es.state = .closing then c.csTcpRawClose else c).es ≠ none := by
    intro sndbuf writes
    by_cases hp : es.p ≠ []
    · rw [if_pos hp]
      exact nofun
    · rw [if_neg hp, if_neg h.isOpen, hes]
      exact nofun
  rw [step, hes, Option.bind_some] at hstep
  cases call with
  | charSend buf alloc sndbuf writes =>
      cases hstep
      unfold csTcpCharSend at hfreed
      by_cases hp : es.p ≠ []
      · rw [if_pos hp, hes] at hfreed
        cases hfreed
      · rw [if_neg hp] at hfreed
        cases alloc with
        | true => cases hfreed
        | false =>
            rw [if_neg Bool.false_ne_true, hes] at hfreed
            cases hfreed
  | recv p err =>
      cases p with
      | none =>
          cases hstep
          exact Or.inl ⟨err, rfl, rfl⟩
      | some data =>
          simp only [csTcpRawRecv] at hstep
          split at hstep
          · cases hstep
          · split at hstep
            · cases hstep
              cases hfreed
            · cases hstep
              rw [hes] at hfreed
              cases hfreed
  | sent sndbuf writes =>
      cases hstep
      exact absurd hfreed resumed
  | poll sndbuf writes =>
      cases hstep
      exact absurd hfreed resumed
  | err =>
      cases hstep
      exact Or.inr ⟨rfl, rfl⟩

theorem step_graceful (h : ∀ es, c.es = some es → c.Accounted es)
    (hstep : c.step lwip call = some c') :
    c'.Graceful ↔ FinDrained c call := by
  obtain ⟨es, hes, _⟩ := Option.bind_eq_some_iff.mp hstep
  have hacc := h es hes
  constructor
  · intro hgraceful
    cases call with
    | recv p err =>
        cases p with
        | none =>
            rw [step, hes] at hstep
            cases hstep
            intro es' hes'
            rw [hes] at hes'
            cases hes'
            have hall : c.wrote = c.took := hgraceful rfl hacc.failed
            rw [hacc.bytes] at hall
            exact List.append_right_eq_self.mp hall.symm
        | some data => trivial
    | _ => trivial
  · intro hdrained hfreed hfailed
    rcases freed_cases hacc hes hstep hfreed with ⟨err, rfl, rfl⟩ | ⟨rfl, rfl⟩
    · have hempty : chainBytes es.p = [] := hdrained es hes
      show c.wrote = c.took
      rw [hacc.bytes, hempty, List.append_nil]
    · cases hfailed

/-- A connection that was not closed by an error wrote what it took, exactly if the peer's
FIN found nothing in `es->p`. -/
theorem run_graceful_iff {tr : List (RawConn × RawCall)} (hrun : (rawConn lwip k a).Run tr c) :
    c.Graceful ↔ Machine.Meets FinDrained tr := by
  have hall : Machine.Meets (fun _ _ => True) tr := fun _ _ => trivial
  refine hrun.iff_meets hall (fun hrun _ => reachable_accounted hrun.reachable) nofun ?_
  intro c call c' hacc _ hstep
  have hopen : c.Graceful := by
    obtain ⟨es, hes, _⟩ := Option.bind_eq_some_iff.mp hstep
    intro hfreed
    rw [hes] at hfreed
    cases hfreed
  rw [step_graceful hacc hstep]
  exact ⟨fun h => ⟨hopen, h⟩, fun h => h.2⟩

/-- The chain is written in two pieces before the FIN. -/
theorem run_graceful_pieces : ∃ tr c, (rawConn .pool 0 1).Run tr c ∧ c.es = none ∧
    c.took = [7, 8] ∧ c.Graceful := by
  obtain ⟨tr, c, hrun, hmeets, htest⟩ := Machine.exists_run_of_exec (rawConn .pool 0 1)
    (fun c call => match call with
      | .recv none _ => c.es.all fun es => chainBytes es.p = []
      | _ => true)
    [.charSend [7, 8] true 65535 [.mem], .recv (some [1]) .ok, .poll 65535 [.ok], .recv none .ok]
    (fun c => c.es = none ∧ c.took = [7, 8]) (by decide)
  obtain ⟨hfreed, htook⟩ := of_decide_eq_true htest
  refine ⟨tr, c, hrun, hfreed, htook, (run_graceful_iff hrun).mpr (hmeets.mono ?_)⟩
  intro c call hok
  cases call with
  | recv p err =>
      cases p with
      | none =>
          intro es hes
          simpa [hes] using hok
      | some data => trivial
  | _ => trivial

/-- The FIN arrives while `tcp_write` has yet to take the bytes. -/
theorem not_graceful_fin : ∃ c, (rawConn .pool 0 1).Reachable c ∧ ¬c.Graceful := by
  obtain ⟨tr, c, hrun, _, htest⟩ := Machine.exists_run_of_exec (rawConn .pool 0 1) (fun _ _ => true)
    [.charSend [7] true 65535 [.mem], .recv none .ok]
    (fun c => c.es = none ∧ c.failed = false ∧ c.wrote = [] ∧ c.took = [7]) (by decide)
  obtain ⟨hfreed, hfailed, hwrote, htook⟩ := of_decide_eq_true htest
  refine ⟨c, hrun.reachable, ?_⟩
  intro hgraceful
  have hall := hgraceful hfreed hfailed
  rw [hwrote, htook] at hall
  cases hall

end RawConn

end LwipCs
