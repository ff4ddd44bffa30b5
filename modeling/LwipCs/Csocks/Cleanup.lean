import LwipCs.Csocks.Isolation
import LwipCs.Csocks.Url

/-!
# What is left behind when a loop ends

`proc` breaks out of its loop when `Read` fails or a payload cannot be decoded, and does
nothing more: neither the connections it put into `conns` nor `r` are closed. They may
have been closed before, the connections by the processors they were handed to, and `r`
by whoever else holds the PCB. `PCB.Read` fails only on a closed PCB.
-/

namespace LwipCs

namespace Csocks

open Interleave

/-- The processor with the clients it serves: which of them are closed. -/
structure Served where
  proc : Sys
  closed : ClientId → Bool

inductive ServeAct
  | proc (a : Act)
  /-- `Close` on the PCB of a client, by code outside the package -/
  | closeClient (r : ClientId)
  deriving DecidableEq, Repr

namespace Served

def step (lib : Lib) (s : Served) : ServeAct → Option Served
  | .proc (.recv r none) =>
      if s.closed r then (s.proc.step lib (.recv r none)).map fun t => { s with proc := t }
      else none
  | .proc a => (s.proc.step lib a).map fun t => { s with proc := t }
  | .closeClient r =>
      if r < s.proc.nextClient then some { s with closed := Function.update s.closed r true }
      else none

end Served

def serving (lib : Lib) : Machine Served ServeAct :=
  ⟨⟨Sys.init, fun _ => false⟩, Served.step lib⟩

/-- Every connection of the client in the map is closed. -/
def Released (objs : DnsId → Option DNSConn) (conns : Text → Option DnsId) (r : ClientId) : Prop :=
  ∀ key c o, conns key = some c → objs c = some o → o.base = r → o.closed = true

/-- Of a client whose loop has ended nothing is left open. -/
def Served.CleanedUp (s : Served) : Prop :=
  ∀ r, r < s.proc.nextClient → s.proc.loops r = .off →
    s.closed r = true ∧ Released s.proc.objs s.proc.conns r

/-- The loop of the client puts a connection into the map. -/
def Stores (r : ClientId) (key : Text) (c : DnsId) (x : Served × ServeAct) : Prop :=
  ∃ q o, x.2 = .proc (.store r) ∧ x.1.proc.loops r = .store q c ∧ x.1.proc.objs c = some o ∧
    o.key = key

/-- `Close` takes the entry out of the map. -/
def Deletes (key : Text) (x : Served × ServeAct) : Prop :=
  ∃ i c o, x.2 = .proc (.closeStep i) ∧ x.1.proc.closers i = .delete c ∧
    x.1.proc.objs c = some o ∧ o.key = key

def Writes (key : Text) (x : Served × ServeAct) : Prop :=
  (∃ r c, Stores r key c x) ∨ Deletes key x

/-- `Close` sets `closed` of the connection. -/
def Marks (c : DnsId) (x : Served × ServeAct) : Prop :=
  ∃ i, x.2 = .proc (.closeStep i) ∧ x.1.proc.closers i = .mark c

/-- Every connection that the loop of the client has put into the map was closed in the course of
the run, or its entry was deleted or replaced since. -/
def ClosedOff (r : ClientId) (tr : List (Served × ServeAct)) : Prop :=
  ∀ front x rest key c, tr = front ++ x :: rest → Stores r key c x →
    (∃ y ∈ tr, Marks c y) ∨ ∃ y ∈ rest, Writes key y

/-- Before a step that ends a loop, because `Read` fails or the payload is no message, the
connections of the client were closed off, and in the latter case the client was closed. -/
def Deserted (lib : Lib) (tr : List (Served × ServeAct)) : Prop :=
  ∀ front x rest r data, tr = front ++ x :: rest → x.2 = .proc (.recv r data) →
    (∀ buf, data = some buf → lib.unpack buf = none) →
      ClosedOff r front ∧ (data ≠ none → ∃ y ∈ front, y.2 = .closeClient r)

/-- Where the step ends a loop nothing of the client is left open. -/
def EndsClean (lib : Lib) (s : Served) : ServeAct → Prop
  | .proc (.recv r none) => Released s.proc.objs s.proc.conns r
  | .proc (.recv r (some buf)) =>
      lib.unpack buf = none → s.closed r = true ∧ Released s.proc.objs s.proc.conns r
  | _ => True

variable {lib : Lib} {s t : Served} {a : ServeAct}

/-- A step is one of the processor, or a client is closed. -/
theorem Served.step_cases (h : s.step lib a = some t) :
    (∃ b u, a = .proc b ∧ Step lib s.proc b u ∧ t = { s with proc := u } ∧
        (∀ r, b = .recv r none → s.closed r = true)) ∨
      ∃ r, a = .closeClient r ∧ t = { s with closed := Function.update s.closed r true } := by
  unfold Served.step at h
  split at h
  · rename_i r
    split at h
    · rename_i hclosed
      obtain ⟨u, hu, rfl⟩ := Option.map_eq_some_iff.mp h
      refine Or.inl ⟨_, u, rfl, Sys.step_cases hu, rfl, ?_⟩
      rintro _ ⟨⟩
      exact hclosed
    · cases h
  · rename_i b hb
    obtain ⟨u, hu, rfl⟩ := Option.map_eq_some_iff.mp h
    exact Or.inl ⟨b, u, rfl, Sys.step_cases hu, rfl, fun r hr => absurd hr (hb r)⟩
  · rename_i r
    split at h
    · cases h
      exact Or.inr ⟨r, rfl, rfl⟩
    · cases h

theorem serving_inOrder (h : (serving lib).Reachable s) : s.proc.InOrder := by
  refine h.invariant (I := fun s => s.proc.InOrder) ?_ ?_
  · exact (reachable_inOrder (Machine.Run.start (M := csocks lib)).reachable)
  · intro s a t hs hstep
    obtain ⟨b, u, _, hu, rfl, _⟩ | ⟨r, _, rfl⟩ := Served.step_cases hstep
    · exact step_inOrder hs hu
    · exact hs

namespace Released

variable {objs : DnsId → Option DNSConn} {conns : Text → Option DnsId} {r : ClientId} {c : DnsId}
variable {o o' : DNSConn} {key : Text}

/-- A connection that is closed stays closed. -/
theorem setConn (h : Released objs conns r) (ho : objs c = some o) (hbase : o'.base = o.base)
    (hclosed : o.closed = true → o'.closed = true) :
    Released (Function.update objs c (some o')) conns r := by
  intro key c' x hc' hx hr
  by_cases heq : c' = c
  · subst heq
    rw [Function.update_self] at hx
    cases hx
    exact hclosed (h key c' o hc' ho (hbase.symm.trans hr))
  · rw [Function.update_of_ne heq] at hx
    exact h key c' x hc' hx hr

/-- A new connection is not in the map. -/
theorem make (h : Released objs conns r) (hnew : ∀ key, conns key ≠ some c) :
    Released (Function.update objs c (some o)) conns r := by
  intro key c' x hc' hx hr
  have hne : c' ≠ c := by
    rintro rfl
    exact hnew key hc'
  rw [Function.update_of_ne hne] at hx
  exact h key c' x hc' hx hr

/-- A loop that runs stores its connection. -/
theorem store (h : Released objs conns r) (ho : objs c = some o) (hother : o.base ≠ r) :
    Released objs (Function.update conns key (some c)) r := by
  intro key' c' x hc' hx hr
  by_cases heq : key' = key
  · subst heq
    rw [Function.update_self] at hc'
    cases hc'
    rw [ho] at hx
    cases hx
    exact absurd hr hother
  · rw [Function.update_of_ne heq] at hc'
    exact h key' c' x hc' hx hr

theorem delete (h : Released objs conns r) : Released objs (Function.update conns key none) r := by
  intro key' c' x hc' hx hr
  by_cases heq : key' = key
  · subst heq
    rw [Function.update_self] at hc'
    cases hc'
  · rw [Function.update_of_ne heq] at hc'
    exact h key' c' x hc' hx hr

end Released

theorem step_released {u v : Sys} {b : Act} {r : ClientId} (hs : u.InOrder)
    (hoff : u.loops r = .off) (h : Released u.objs u.conns r) (hstep : Step lib u b v) :
    Released v.objs v.conns r := by
  cases hstep with
  | opened =>
      apply h.make
      intro key hc
      obtain ⟨x, hx, _⟩ := hs.entry key _ hc
      exact absurd (hs.made _ x hx).1 (Nat.lt_irrefl _)
  | @stored i q c o hpc ho =>
      apply h.store ho
      obtain ⟨x, hx, hbase⟩ := hs.held i c (by rw [hpc]; rfl)
      rw [ho] at hx
      cases hx
      rintro rfl
      rw [hbase, hpc] at hoff
      cases hoff
  | pushed _ ho => exact h.setConn ho rfl id
  | taken ho => exact h.setConn ho rfl id
  | marked _ ho => exact h.setConn ho rfl fun _ => rfl
  | queueClosed _ ho => exact h.setConn ho rfl id
  | deleted => exact h.delete
  | _ => exact h

/-- A loop is ended by its own step at `Read`. -/
theorem ended_cases {u v : Sys} {b : Act} {r : ClientId} (hstep : Step lib u b v)
    (hlt : r < v.nextClient) (hoff : v.loops r = .off) :
    (r < u.nextClient ∧ u.loops r = .off) ∨ ∃ data, b = .recv r data ∧
      (∀ buf, data = some buf → lib.unpack buf = none) ∧ v.conns = u.conns ∧ v.objs = u.objs := by
  have elsewhere : ∀ {i pc}, Function.update u.loops i pc r = .off → pc ≠ .off →
      r ≠ i ∧ u.loops r = .off := by
    intro i pc hoff hpc
    by_cases heq : r = i
    · subst heq
      rw [Function.update_self] at hoff
      exact absurd hoff hpc
    · rw [Function.update_of_ne heq] at hoff
      exact ⟨heq, hoff⟩
  cases hstep with
  | served =>
      obtain ⟨hne, hoff⟩ := elsewhere hoff nofun
      exact Or.inl ⟨Nat.lt_of_le_of_ne (Nat.le_of_lt_succ hlt) hne, hoff⟩
  | @ended i data hpc hdata =>
      by_cases heq : r = i
      · subst heq
        exact Or.inr ⟨data, rfl, hdata, rfl, rfl⟩
      · left
        exact ⟨hlt, (Function.update_of_ne heq ..).symm.trans hoff⟩
  | received => exact Or.inl ⟨hlt, (elsewhere hoff nofun).2⟩
  | found => exact Or.inl ⟨hlt, (elsewhere hoff nofun).2⟩
  | hit => exact Or.inl ⟨hlt, (elsewhere hoff nofun).2⟩
  | missed => exact Or.inl ⟨hlt, (elsewhere hoff nofun).2⟩
  | refused => exact Or.inl ⟨hlt, (elsewhere hoff nofun).2⟩
  | opened => exact Or.inl ⟨hlt, (elsewhere hoff nofun).2⟩
  | failed => exact Or.inl ⟨hlt, (elsewhere hoff nofun).2⟩
  | returned => exact Or.inl ⟨hlt, (elsewhere hoff nofun).2⟩
  | stored => exact Or.inl ⟨hlt, (elsewhere hoff nofun).2⟩
  | pushed => exact Or.inl ⟨hlt, (elsewhere hoff nofun).2⟩
  | _ => exact Or.inl ⟨hlt, hoff⟩

/-- A step that ends no loop leaves what was cleaned up, and one that ends a loop cleans up
exactly if that was done before. -/
theorem step_cleanedUp (hs : s.proc.InOrder) (h : s.CleanedUp) (hstep : s.step lib a = some t) :
    t.CleanedUp ↔ EndsClean lib s a := by
  obtain ⟨b, u, rfl, hu, rfl, hread⟩ | ⟨r, rfl, rfl⟩ := Served.step_cases hstep
  · constructor
    · intro ht
      have ends : ∀ r data, b = .recv r data → (∀ buf, data = some buf → lib.unpack buf = none) →
          s.closed r = true ∧ Released s.proc.objs s.proc.conns r := by
        rintro r data rfl hdata
        cases hu with
        | ended hpc =>
            have hlt := hs.started r (by rw [hpc]; nofun)
            exact ht r hlt (Function.update_self ..)
        | noQuestion hpc hmsg =>
            rw [hdata _ rfl] at hmsg
            cases hmsg
        | received hpc hlen hmsg =>
            rw [hdata _ rfl] at hmsg
            cases hmsg
      cases b with
      | recv r data =>
          cases data with
          | none => exact (ends r none rfl nofun).2
          | some buf =>
              intro hbad
              apply ends r (some buf) rfl
              rintro _ ⟨⟩
              exact hbad
      | _ => trivial
    · intro hok r hlt hoff
      obtain ⟨hlt', hoff'⟩ | ⟨data, rfl, hdata, hconns, hobjs⟩ := ended_cases hu hlt hoff
      · obtain ⟨hclosed, hreleased⟩ := h r hlt' hoff'
        exact ⟨hclosed, step_released hs hoff' hreleased hu⟩
      · show s.closed r = true ∧ Released u.objs u.conns r
        rw [hconns, hobjs]
        cases data with
        | none => exact ⟨hread r rfl, hok⟩
        | some buf => exact hok (hdata buf rfl)
  · refine iff_of_true ?_ trivial
    intro r' hlt hoff
    obtain ⟨hclosed, hreleased⟩ := h r' hlt hoff
    refine ⟨?_, hreleased⟩
    show Function.update s.closed r true r' = true
    by_cases heq : r' = r
    · rw [heq, Function.update_self]
    · rwa [Function.update_of_ne heq]

/-! ### The history of the map -/

variable {tr : List (Served × ServeAct)} {key : Text} {c : DnsId} {r : ClientId} {o : DNSConn}

theorem Stores.unique {r' : ClientId} {c' : DnsId} {x : Served × ServeAct} (h : Stores r key c x)
    (h' : Stores r' key c' x) : c = c' := by
  obtain ⟨q, _, hact, hpc, _⟩ := h
  obtain ⟨q', _, hact', hpc', _⟩ := h'
  cases hact.symm.trans hact'
  cases hpc.symm.trans hpc'
  rfl

theorem Stores.not_deletes {key' : Text} {x : Served × ServeAct} (h : Stores r key c x) :
    ¬Deletes key' x := by
  rintro ⟨i, c', o', hact', _⟩
  obtain ⟨q, o, hact, _⟩ := h
  cases hact.symm.trans hact'

/-- What a step does to one entry. -/
theorem step_entry (hstep : s.step lib a = some t) (key : Text) :
    (t.proc.conns key = s.proc.conns key ∧ ¬Writes key (s, a)) ∨
      (∃ r c, t.proc.conns key = some c ∧ Stores r key c (s, a)) ∨
        (t.proc.conns key = none ∧ Deletes key (s, a)) := by
  -- only the two statements that write can have written
  have same : (∀ r, a ≠ .proc (.store r)) → (∀ i c, a = .proc (.closeStep i) →
      s.proc.closers i ≠ .delete c) → ¬Writes key (s, a) := by
    rintro hstore hclose (⟨r, c, q, o, hact, _⟩ | ⟨i, c, o, hact, hpc, _⟩)
    · exact hstore r hact
    · exact hclose i c hact hpc
  have elsewhere : ∀ {i pc}, s.proc.closers i = pc → (∀ c, pc ≠ .delete c) →
      a = .proc (.closeStep i) → ¬Writes key (s, a) := by
    rintro i pc rfl hpc rfl
    refine same nofun ?_
    rintro _ c ⟨⟩
    exact hpc c
  obtain ⟨b, u, rfl, hu, rfl, _⟩ | ⟨r, rfl, rfl⟩ := Served.step_cases hstep
  · cases hu with
    | @stored r q c o hpc ho =>
        by_cases heq : o.key = key
        · subst heq
          exact Or.inr (Or.inl ⟨r, c, Function.update_self .., q, o, rfl, hpc, ho, rfl⟩)
        · refine Or.inl ⟨Function.update_of_ne (Ne.symm heq) .., ?_⟩
          rintro (⟨r', c', q', o', hact, hpc', ho', hkey⟩ | ⟨_, _, _, hact, _⟩)
          · cases hact
            cases hpc.symm.trans hpc'
            cases ho.symm.trans ho'
            exact heq hkey
          · cases hact
    | @deleted i c o hpc ho =>
        by_cases heq : o.key = key
        · subst heq
          exact Or.inr (Or.inr ⟨Function.update_self .., i, c, o, rfl, hpc, ho, rfl⟩)
        · refine Or.inl ⟨Function.update_of_ne (Ne.symm heq) .., ?_⟩
          rintro (⟨_, _, _, _, hact, _⟩ | ⟨i', c', o', hact, hpc', ho', hkey⟩)
          · cases hact
          · cases hact
            cases hpc.symm.trans hpc'
            cases ho.symm.trans ho'
            exact heq hkey
    | tested hpc _ _ => exact Or.inl ⟨rfl, elsewhere hpc nofun rfl⟩
    | testedClosed hpc => exact Or.inl ⟨rfl, elsewhere hpc nofun rfl⟩
    | marked hpc _ => exact Or.inl ⟨rfl, elsewhere hpc nofun rfl⟩
    | queueClosed hpc _ _ => exact Or.inl ⟨rfl, elsewhere hpc nofun rfl⟩
    | closedTwice hpc _ _ => exact Or.inl ⟨rfl, elsewhere hpc nofun rfl⟩
    | _ => exact Or.inl ⟨rfl, same nofun nofun⟩
  · exact Or.inl ⟨rfl, same nofun nofun⟩

/-- An entry of the map is the last that was written under its key. -/
theorem entry_iff (hrun : (serving lib).Run tr s) : s.proc.conns key = some c ↔
    ∃ front x rest r, tr = front ++ x :: rest ∧ Stores r key c x ∧ ∀ y ∈ rest, ¬Writes key y := by
  induction hrun with
  | start =>
      refine iff_of_false nofun ?_
      rintro ⟨front, x, rest, r, htr, _⟩
      exact absurd (congrArg List.length htr) (by simp)
  | @step tr s t a hrun hstep ih =>
      rcases step_entry hstep key with ⟨hsame, hno⟩ | ⟨r, c', hset, hstores⟩ | ⟨hnone, hdeletes⟩
      · rw [hsame, ih]
        constructor
        · rintro ⟨front, x, rest, r, rfl, hx, hrest⟩
          refine ⟨front, x, rest ++ [(s, a)], r, by simp, hx, ?_⟩
          intro y hy
          rcases List.mem_append.mp hy with hy | hy
          · exact hrest y hy
          · rw [List.mem_singleton.mp hy]
            exact hno
        · rintro ⟨front, x, rest, r, htr, hx, hrest⟩
          rcases Machine.snoc_eq_append_cons.mp htr with ⟨_, rfl, _⟩ | ⟨rest', rfl, rfl⟩
          · exact absurd (Or.inl ⟨r, c, hx⟩) hno
          · exact ⟨front, x, rest', r, rfl, hx, fun y hy => hrest y (List.mem_append_left _ hy)⟩
      · rw [hset, Option.some.injEq]
        constructor
        · rintro rfl
          exact ⟨tr, (s, a), [], r, rfl, hstores, nofun⟩
        · rintro ⟨front, x, rest, r', htr, hx, hrest⟩
          rcases Machine.snoc_eq_append_cons.mp htr with ⟨_, rfl, _⟩ | ⟨rest', rfl, _⟩
          · exact hstores.unique hx
          · exact absurd (Or.inl ⟨r, c', hstores⟩) (hrest _ (by simp))
      · refine iff_of_false (by simp [hnone]) ?_
        rintro ⟨front, x, rest, r', htr, hx, hrest⟩
        rcases Machine.snoc_eq_append_cons.mp htr with ⟨_, rfl, _⟩ | ⟨rest', rfl, _⟩
        · exact hx.not_deletes hdeletes
        · exact absurd (Or.inr hdeletes) (hrest _ (by simp))

/-! ### The history of the connections -/

/-- What a step makes of a connection: it is new, or was there with the same client. -/
theorem step_flag {u v : Sys} {b : Act} (hs : u.InOrder) (hstep : Step lib u b v)
    (ho : v.objs c = some o) :
    (u.objs c = none ∧ o.closed = false ∧ ∀ i, b ≠ .closeStep i) ∨
      ∃ x, u.objs c = some x ∧ x.base = o.base ∧
        (o.closed = true ↔ x.closed = true ∨ ∃ i, b = .closeStep i ∧ u.closers i = .mark c) := by
  have stays : ∀ {x : DNSConn}, u.objs c = some x → x.base = o.base → o.closed = x.closed →
      (∀ i, b = .closeStep i → u.closers i ≠ .mark c) →
        ∃ x, u.objs c = some x ∧ x.base = o.base ∧
          (o.closed = true ↔ x.closed = true ∨ ∃ i, b = .closeStep i ∧ u.closers i = .mark c) := by
    intro x hx hbase hclosed hno
    refine ⟨x, hx, hbase, ?_⟩
    rw [hclosed]
    exact ⟨Or.inl, fun h => h.resolve_right fun ⟨i, hact, hpc⟩ => hno i hact hpc⟩
  have updated : ∀ {c' : DnsId} {x x' : DNSConn}, Function.update u.objs c' (some x') c = some o →
      u.objs c' = some x → x'.base = x.base → x'.closed = x.closed →
        (∀ i, b = .closeStep i → u.closers i ≠ .mark c) →
          ∃ x, u.objs c = some x ∧ x.base = o.base ∧ (o.closed = true ↔
            x.closed = true ∨ ∃ i, b = .closeStep i ∧ u.closers i = .mark c) := by
    intro c' x x' ho hx hbase hclosed hno
    by_cases heq : c = c'
    · subst heq
      rw [Function.update_self] at ho
      cases ho
      exact stays hx hbase.symm hclosed hno
    · rw [Function.update_of_ne heq] at ho
      exact stays ho rfl rfl hno
  have elsewhere : ∀ {i pc}, u.closers i = pc → pc ≠ .mark c → b = .closeStep i →
      ∀ j, b = .closeStep j → u.closers j ≠ .mark c := by
    rintro i pc rfl hpc rfl _ ⟨⟩
    exact hpc
  cases hstep with
  | @opened r q target route hpc =>
      have ho : Function.update u.objs u.nextConn
        (some (newDNSConn (connKey (u.addr r) target) r target)) c = some o := ho
      by_cases heq : c = u.nextConn
      · subst heq
        rw [Function.update_self] at ho
        cases ho
        refine Or.inl ⟨?_, rfl, nofun⟩
        apply Option.eq_none_iff_forall_ne_some.mpr
        intro x hx
        exact Nat.lt_irrefl _ (hs.made _ x hx).1
      · rw [Function.update_of_ne heq] at ho
        exact Or.inr (stays ho rfl rfl nofun)
  | pushed _ hx => exact Or.inr (updated ho hx rfl rfl nofun)
  | taken hx => exact Or.inr (updated ho hx rfl rfl nofun)
  | @marked i c' x hpc hx =>
      by_cases heq : c = c'
      · subst heq
        have ho : Function.update u.objs c (some { x with closed := true }) c = some o := ho
        rw [Function.update_self] at ho
        cases ho
        exact Or.inr ⟨x, hx, rfl, iff_of_true rfl (Or.inr ⟨i, rfl, hpc⟩)⟩
      · have ho : u.objs c = some o := (Function.update_of_ne heq ..).symm.trans ho
        refine Or.inr (stays ho rfl rfl (elsewhere hpc ?_ rfl))
        rintro ⟨⟩
        exact heq rfl
  | queueClosed hpc hx _ => exact Or.inr (updated ho hx rfl rfl (elsewhere hpc nofun rfl))
  | tested hpc _ _ => exact Or.inr (stays ho rfl rfl (elsewhere hpc nofun rfl))
  | testedClosed hpc => exact Or.inr (stays ho rfl rfl (elsewhere hpc nofun rfl))
  | closedTwice hpc _ _ => exact Or.inr (stays ho rfl rfl (elsewhere hpc nofun rfl))
  | deleted hpc _ => exact Or.inr (stays ho rfl rfl (elsewhere hpc nofun rfl))
  | _ => exact Or.inr (stays ho rfl rfl nofun)

/-- What was stored or marked in the run is there, with the client that stored it. -/
theorem made_of_run (hrun : (serving lib).Run tr s) :
    (∀ x ∈ tr, ∀ r key c, Stores r key c x → ∃ o, s.proc.objs c = some o ∧ o.base = r) ∧
      ∀ x ∈ tr, ∀ c, Marks c x → ∃ o, s.proc.objs c = some o := by
  induction hrun with
  | start => exact ⟨nofun, nofun⟩
  | @step tr s t a hrun hstep ih =>
      have hs := serving_inOrder hrun.reachable
      have hkept : Kept s.proc.objs t.proc.objs := by
        obtain ⟨b, u, _, hu, rfl, _⟩ | ⟨r, _, rfl⟩ := Served.step_cases hstep
        · exact step_kept hs hu
        · exact fun c o ho => ⟨o, ho, rfl, rfl⟩
      constructor
      · intro x hx r key c hstores
        have hbefore : ∃ o, s.proc.objs c = some o ∧ o.base = r := by
          rcases List.mem_append.mp hx with hx | hx
          · exact ih.1 x hx r key c hstores
          · obtain ⟨q, o, _, hpc, _⟩ := List.mem_singleton.mp hx ▸ hstores
            exact hs.held r c (by rw [hpc]; rfl)
        obtain ⟨o, ho, hbase⟩ := hbefore
        obtain ⟨o', ho', hbase', _⟩ := hkept c o ho
        exact ⟨o', ho', hbase'.trans hbase⟩
      · intro x hx c hmarks
        have hbefore : ∃ o, s.proc.objs c = some o := by
          rcases List.mem_append.mp hx with hx | hx
          · exact ih.2 x hx c hmarks
          · obtain ⟨i, hact, hpc⟩ := List.mem_singleton.mp hx ▸ hmarks
            obtain ⟨b, u, rfl, hu, _⟩ | ⟨_, rfl, _⟩ := Served.step_cases hstep
            · cases hact
              cases hu with
              | marked hpc' ho =>
                  cases hpc.symm.trans hpc'
                  exact ⟨_, ho⟩
              | tested hpc' => cases hpc.symm.trans hpc'
              | testedClosed hpc' => cases hpc.symm.trans hpc'
              | queueClosed hpc' => cases hpc.symm.trans hpc'
              | closedTwice hpc' => cases hpc.symm.trans hpc'
              | deleted hpc' => cases hpc.symm.trans hpc'
            · cases hact
        obtain ⟨o, ho⟩ := hbefore
        obtain ⟨o', ho', _⟩ := hkept c o ho
        exact ⟨o', ho'⟩

/-- A connection is closed if `Close` has set its flag. -/
theorem flag_iff (hrun : (serving lib).Run tr s) :
    ∀ {c o}, s.proc.objs c = some o → (o.closed = true ↔ ∃ x ∈ tr, Marks c x) := by
  induction hrun with
  | start => exact nofun
  | @step tr s t a hrun hstep ih =>
      intro c o ho
      have hs := serving_inOrder hrun.reachable
      have snoc : (∃ x ∈ tr ++ [(s, a)], Marks c x) ↔
          (∃ x ∈ tr, Marks c x) ∨ Marks c (s, a) := by
        simp only [List.mem_append, List.mem_singleton, or_and_right, exists_or, exists_eq_left]
      rw [snoc]
      obtain ⟨b, u, rfl, hu, rfl, _⟩ | ⟨r, rfl, rfl⟩ := Served.step_cases hstep
      · rcases step_flag hs hu ho with ⟨hnew, hopen, hother⟩ | ⟨x, hx, _, hclosed⟩
        · refine iff_of_false (by simp [hopen]) ?_
          rintro (⟨x, hx, hmarks⟩ | ⟨i, hact, _⟩)
          · obtain ⟨o', ho'⟩ := (made_of_run hrun).2 x hx c hmarks
            rw [hnew] at ho'
            cases ho'
          · cases hact
            exact hother i rfl
        · rw [hclosed, ih hx]
          refine or_congr_right ⟨?_, ?_⟩
          · rintro ⟨i, rfl, hpc⟩
            exact ⟨i, rfl, hpc⟩
          · rintro ⟨i, hact, hpc⟩
            cases hact
            exact ⟨i, rfl, hpc⟩
      · rw [ih ho]
        refine ⟨Or.inl, fun h => h.resolve_right ?_⟩
        rintro ⟨_, hact, _⟩
        cases hact

/-- No open connection of the client is in the map exactly if all that its loop has stored were
closed off. -/
theorem released_iff (hrun : (serving lib).Run tr s) :
    Released s.proc.objs s.proc.conns r ↔ ClosedOff r tr := by
  constructor
  · intro hreleased front x rest key c htr hstores
    by_cases hwritten : ∃ y ∈ rest, Writes key y
    · exact Or.inr hwritten
    · have hentry : s.proc.conns key = some c :=
        (entry_iff hrun).mpr ⟨front, x, rest, r, htr, hstores,
          fun y hy hw => hwritten ⟨y, hy, hw⟩⟩
      obtain ⟨o, ho, hbase⟩ := (made_of_run hrun).1 x (by simp [htr]) r key c hstores
      exact Or.inl ((flag_iff hrun ho).mp (hreleased key c o hentry ho hbase))
  · intro hclosed key c o hentry ho hbase
    obtain ⟨front, x, rest, r', htr, hstores, hno⟩ := (entry_iff hrun).mp hentry
    obtain ⟨o', ho', hbase'⟩ := (made_of_run hrun).1 x (by simp [htr]) r' key c hstores
    rw [ho] at ho'
    cases ho'
    obtain rfl := hbase'.symm.trans hbase
    rcases hclosed front x rest key c htr hstores with hmarked | ⟨y, hy, hwrites⟩
    · exact (flag_iff hrun ho).mpr hmarked
    · exact absurd hwrites (hno y hy)

/-- Nothing in the package closes a client. -/
theorem client_closed_iff (hrun : (serving lib).Run tr s) :
    s.closed r = true ↔ ∃ x ∈ tr, x.2 = .closeClient r := by
  induction hrun with
  | start => exact iff_of_false nofun (by simp)
  | @step tr u v a hrun hstep ih =>
      have snoc : (∃ x ∈ tr ++ [(u, a)], x.2 = .closeClient r) ↔
          (∃ x ∈ tr, x.2 = .closeClient r) ∨ a = .closeClient r := by
        simp only [List.mem_append, List.mem_singleton, or_and_right, exists_or, exists_eq_left]
      rw [snoc, ← ih]
      obtain ⟨b, w, rfl, _, rfl, _⟩ | ⟨r', rfl, rfl⟩ := Served.step_cases hstep
      · simp
      · by_cases heq : r = r'
        · subst heq
          exact iff_of_true (Function.update_self ..) (Or.inr rfl)
        · show Function.update u.closed r' true r = true ↔ _
          rw [Function.update_of_ne heq]
          refine ⟨Or.inl, fun h => h.resolve_right ?_⟩
          rintro ⟨⟩
          exact heq rfl

theorem deserted_iff (hrun : (serving lib).Run tr s) :
    Machine.Meets (EndsClean lib) tr ↔ Deserted lib tr := by
  constructor
  · rintro h front ⟨u, _⟩ rest r data htr rfl hdata
    have hfront := hrun.front htr
    have hends : EndsClean lib u (.proc (.recv r data)) := h (u, _) (by simp [htr])
    cases data with
    | none => exact ⟨(released_iff hfront).mp hends, fun hne => absurd rfl hne⟩
    | some buf =>
        obtain ⟨hclosed, hreleased⟩ := hends (hdata buf rfl)
        exact ⟨(released_iff hfront).mp hreleased, fun _ => (client_closed_iff hfront).mp hclosed⟩
  · rintro h ⟨u, a⟩ hx
    obtain ⟨front, rest, htr⟩ := List.append_of_mem hx
    have hfront := hrun.front htr
    cases a with
    | proc b =>
        cases b with
        | recv r data =>
            have hends := h front _ rest r data htr rfl
            cases data with
            | none => exact (released_iff hfront).mpr (hends nofun).1
            | some buf =>
                intro hbad
                have hbad : ∀ buf', some buf = some buf' → lib.unpack buf' = none := by
                  rintro _ ⟨⟩
                  exact hbad
                obtain ⟨hclosed, hclient⟩ := hends hbad
                exact ⟨(client_closed_iff hfront).mpr (hclient nofun),
                  (released_iff hfront).mpr hclosed⟩
        | _ => trivial
    | closeClient r => trivial

/-- Nothing of a client is left once its loop has ended, exactly in the runs in which each loop
that ends has been deserted: the processors have closed or replaced the connections it has stored,
and where no `Read` failed somebody else has closed the client. -/
theorem run_cleanedUp_iff (hrun : (serving lib).Run tr s) :
    Machine.Always Served.CleanedUp tr s ↔ Deserted lib tr := by
  rw [← deserted_iff hrun]
  refine hrun.always_iff serving_inOrder ?_
    fun s a t hs hclean hstep => step_cleanedUp hs hclean hstep
  intro r hlt
  exact absurd hlt (Nat.not_lt_zero r)

/-- An executable test of `Released`, for states in order. -/
def releasedTest (s : Sys) (r : ClientId) : Bool :=
  (List.range s.nextConn).all fun c =>
    (s.objs c).all fun o => s.conns o.key ≠ some c ∨ o.base ≠ r ∨ o.closed

theorem released_of_test {u : Sys} {r : ClientId} (hs : u.InOrder) (h : releasedTest u r = true) :
    Released u.objs u.conns r := by
  intro key c o hc ho hr
  obtain ⟨x, hx, rfl⟩ := hs.entry key c hc
  rw [ho] at hx
  cases hx
  have hall := List.all_eq_true.mp h c (List.mem_range.mpr (hs.made c o ho).1)
  simpa [ho, hc, hr] using hall

def endsCleanTest (lib : Lib) (s : Served) : ServeAct → Bool
  | .proc (.recv r none) => releasedTest s.proc r
  | .proc (.recv r (some buf)) =>
      (lib.unpack buf).isSome || (s.closed r && releasedTest s.proc r)
  | _ => true

theorem endsClean_of_test (hs : s.proc.InOrder) (h : endsCleanTest lib s a = true) :
    EndsClean lib s a := by
  cases a with
  | proc b =>
      cases b with
      | recv r data =>
          cases data with
          | none => exact released_of_test hs h
          | some buf =>
              intro hbad
              simp only [endsCleanTest, hbad, Option.isSome_none, Bool.false_or,
                Bool.and_eq_true] at h
              exact ⟨h.1, released_of_test hs h.2⟩
      | _ => trivial
  | closeClient r => trivial

/-- The resolver closes its connection and then the client is closed. -/
theorem run_cleanedUp_closed : ∃ tr s, (serving sampleLib).Run tr s ∧ s.proc.loops 0 = .off ∧
    Event.queued 0 ⟨0, 0, question⟩ ∈ s.proc.trace ∧ Machine.Always Served.CleanedUp tr s := by
  obtain ⟨tr, s, hrun, hmeets, htest⟩ := Machine.exists_run_of_exec (serving sampleLib)
    (endsCleanTest sampleLib)
    [.proc (.accept .udp ⟨[1, 1, 1, 1], Or.inl rfl⟩ 53 4096), .proc (.recv 0 (some question)),
      .proc (.target 0 ['d', 'n', 's', ':', '/', '/', 'l']), .proc (.lookup 0), .proc (.create 0),
      .proc (.returned 0 true), .proc (.store 0), .proc (.push 0), .proc (.close 0 0),
      .proc (.closeStep 0), .proc (.closeStep 0), .closeClient 0, .proc (.recv 0 none)]
    (fun s => s.proc.loops 0 = .off ∧ Event.queued 0 ⟨0, 0, question⟩ ∈ s.proc.trace) (by decide)
  obtain ⟨hoff, hqueued⟩ := of_decide_eq_true htest
  refine ⟨tr, s, hrun, hoff, hqueued, (run_cleanedUp_iff hrun).mpr ((deserted_iff hrun).mp ?_)⟩
  intro x hx
  exact endsClean_of_test (serving_inOrder (hrun.reachable_of_mem hx)) (hmeets x hx)

/-- A payload that is no message ends the loop after a query. -/
theorem not_cleanedUp_undecodable : ∃ s, (serving sampleLib).Reachable s ∧
    s.proc.loops 0 = .off ∧ s.closed 0 = false ∧ ¬Released s.proc.objs s.proc.conns 0 ∧
      ¬s.CleanedUp := by
  obtain ⟨tr, s, hrun, _, htest⟩ := Machine.exists_run_of_exec (serving sampleLib)
    (fun _ _ => true)
    [.proc (.accept .udp ⟨[1, 1, 1, 1], Or.inl rfl⟩ 53 4096), .proc (.recv 0 (some question)),
      .proc (.target 0 ['d', 'n', 's', ':', '/', '/', 'l']), .proc (.lookup 0), .proc (.create 0),
      .proc (.returned 0 true), .proc (.store 0), .proc (.push 0), .proc (.recv 0 (some []))]
    (fun s => s.proc.loops 0 = .off ∧ s.proc.nextClient = 1 ∧ s.closed 0 = false ∧
      s.proc.conns (connKey 4096 ['d', 'n', 's', ':', '/', '/', 'l']) = some 0 ∧
      (s.proc.objs 0).map DNSConn.base = some 0 ∧ (s.proc.objs 0).map DNSConn.closed = some false)
    (by decide)
  obtain ⟨hoff, hnext, hclosed, hentry, hbase, hopen⟩ := of_decide_eq_true htest
  refine ⟨s, hrun.reachable, hoff, hclosed, ?_, ?_⟩
  · intro h
    obtain ⟨o, ho, hbase⟩ := Option.map_eq_some_iff.mp hbase
    rw [ho] at hopen
    rw [Option.map_some, h _ 0 o hentry ho hbase] at hopen
    cases hopen
  · intro h
    have hclosed' := (h 0 (by rw [hnext]; exact Nat.zero_lt_one) hoff).1
    rw [hclosed] at hclosed'
    cases hclosed'

end Csocks

end LwipCs
