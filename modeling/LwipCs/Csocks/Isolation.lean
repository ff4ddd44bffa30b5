import LwipCs.Csocks.Conns
import LwipCs.Csocks.Url

/-!
# Which client a query and a response belong to

A query goes to a connection of the client it was read from, opened for the target
that `Target` gave for it, once and in the order of arrival. A response goes to the
client of the connection it is written to.
-/

namespace LwipCs

namespace Csocks

open Interleave

/-- The query was read, and `Target` gave the target for the name of its first question. -/
def Asked (lib : Lib) (trace : List Event) (q : Query) (target : Text) : Prop :=
  .received q ∈ trace ∧ ∃ msg name more, lib.unpack q.data = some msg ∧
    msg.question = name :: more ∧ .found q name target ∈ trace

/-- The connection belongs to the client of the query and was opened for its target. -/
def Owns (lib : Lib) (objs : DnsId → Option DNSConn) (trace : List Event) (c : DnsId)
    (q : Query) : Prop :=
  ∃ o, objs c = some o ∧ o.base = q.client ∧ Asked lib trace q o.target

def Event.arrived : Event → Option Query
  | .received q => some q
  | _ => none

def Event.queuedQuery : Event → Option Query
  | .queued _ q => some q
  | _ => none

def Event.queuedOn (c : DnsId) : Event → Option Query
  | .queued c' q => if c' = c then some q else none
  | _ => none

def Event.takenOn (c : DnsId) : Event → Option Query
  | .taken c' q => if c' = c then some q else none
  | _ => none

/-- The statement about queries and responses. -/
structure Isolated (lib : Lib) (s : Sys) : Prop where
  /-- queries are numbered as they arrive -/
  arrival : (select Event.arrived s.trace).Pairwise fun q q' => q.id < q'.id
  owner : ∀ c q, .queued c q ∈ s.trace → Owns lib s.objs s.trace c q
  once : (select Event.queuedQuery s.trace).Nodup
  inOrder : ∀ c, (select (Event.queuedOn c) s.trace).Pairwise fun q q' => q.id < q'.id
  /-- what was read from a connection, and then what waits in it, are the queued queries -/
  fifo : ∀ c o, s.objs c = some o →
    select (Event.takenOn c) s.trace ++ o.readQueued.buf = select (Event.queuedOn c) s.trace
  /-- a response goes to the client of the connection, which had asked for its target -/
  response : Each (fun before e => ∀ c r p, e = .relayed c r p →
    ∃ o q, s.objs c = some o ∧ o.base = r ∧ q.client = r ∧ Asked lib before q o.target) s.trace

/-! ### Steps in general -/

/-- Objects stay, with what they were made with. -/
def Kept (objs objs' : DnsId → Option DNSConn) : Prop :=
  ∀ c o, objs c = some o → ∃ o', objs' c = some o' ∧ o'.base = o.base ∧ o'.target = o.target

variable {lib : Lib} {s t : Sys} {a : Act} {objs objs' : DnsId → Option DNSConn}
variable {loops : ClientId → ProcPc} {trace trace' : List Event} {nextQuery : Nat}
variable {c : DnsId} {o o' : DNSConn} {r : ClientId} {q : Query} {pc : ProcPc} {e : Event}

theorem kept_update (ho : objs c = some o) (hbase : o'.base = o.base)
    (htarget : o'.target = o.target) : Kept objs (Function.update objs c (some o')) := by
  intro c' x hx
  by_cases heq : c' = c
  · subst heq
    rw [ho] at hx
    cases hx
    exact ⟨o', Function.update_self .., hbase, htarget⟩
  · exact ⟨x, by rwa [Function.update_of_ne heq], rfl, rfl⟩

theorem step_kept (hs : s.InOrder) (hstep : Step lib s a t) : Kept s.objs t.objs := by
  have refl : Kept s.objs s.objs := fun c o ho => ⟨o, ho, rfl, rfl⟩
  cases hstep with
  | opened =>
      intro c o ho
      have hne : c ≠ s.nextConn := Nat.ne_of_lt (hs.made c o ho).1
      exact ⟨o, (Function.update_of_ne hne ..).trans ho, rfl, rfl⟩
  | pushed _ ho => exact kept_update ho rfl rfl
  | taken ho => exact kept_update ho rfl rfl
  | marked _ ho => exact kept_update ho rfl rfl
  | queueClosed _ ho => exact kept_update ho rfl rfl
  | _ => exact refl

/-- Where queueing, answering and relaying are recorded. -/
def Event.Emitted (s : Sys) : Event → Prop
  | .queued c q => ∃ r, s.loops r = .push q c
  | .answered c _ => ∃ o, s.objs c = some o
  | .relayed c r _ => ∃ o, s.objs c = some o ∧ o.base = r
  | _ => True

/-- A step records at most one event. -/
theorem step_trace (hstep : Step lib s a t) :
    t.trace = s.trace ∨ ∃ e : Event, t.trace = s.trace ++ [e] ∧ e.Emitted s := by
  cases hstep with
  | accepted => exact Or.inr ⟨_, rfl, trivial⟩
  | served => exact Or.inr ⟨_, rfl, trivial⟩
  | received => exact Or.inr ⟨_, rfl, trivial⟩
  | found => exact Or.inr ⟨_, rfl, trivial⟩
  | opened => exact Or.inr ⟨_, rfl, trivial⟩
  | pushed hpc => exact Or.inr ⟨_, rfl, _, hpc⟩
  | taken => exact Or.inr ⟨_, rfl, trivial⟩
  | responded ho => exact Or.inr ⟨_, rfl, _, ho⟩
  | relayed _ ho => exact Or.inr ⟨_, rfl, _, ho, rfl⟩
  | _ => exact Or.inl rfl

/-- An object was there, or is made by a loop for the query it holds. -/
theorem step_made (hstep : Step lib s a t) (ho : t.objs c = some o) :
    (∃ x, s.objs c = some x ∧ x.base = o.base ∧ x.target = o.target) ∨
      ∃ q, s.loops o.base = .create q o.target := by
  have updated : ∀ {c' : DnsId} {x x' : DNSConn}, Function.update s.objs c' (some x') c = some o →
      s.objs c' = some x → x'.base = x.base → x'.target = x.target →
        ∃ x, s.objs c = some x ∧ x.base = o.base ∧ x.target = o.target := by
    intro c' x x' ho hx hbase htarget
    by_cases heq : c = c'
    · subst heq
      rw [Function.update_self] at ho
      cases ho
      exact ⟨x, hx, hbase.symm, htarget.symm⟩
    · rw [Function.update_of_ne heq] at ho
      exact ⟨o, ho, rfl, rfl⟩
  cases hstep with
  | @opened r q target route hpc =>
      have ho : Function.update s.objs s.nextConn
        (some (newDNSConn (connKey (s.addr r) target) r target)) c = some o := ho
      by_cases heq : c = s.nextConn
      · subst heq
        rw [Function.update_self] at ho
        cases ho
        exact Or.inr ⟨_, hpc⟩
      · rw [Function.update_of_ne heq] at ho
        exact Or.inl ⟨o, ho, rfl, rfl⟩
  | pushed _ hx => exact Or.inl (updated ho hx rfl rfl)
  | taken hx => exact Or.inl (updated ho hx rfl rfl)
  | marked _ hx => exact Or.inl (updated ho hx rfl rfl)
  | queueClosed _ hx => exact Or.inl (updated ho hx rfl rfl)
  | _ => exact Or.inl ⟨o, ho, rfl, rfl⟩

theorem step_subset (hstep : Step lib s a t) : s.trace ⊆ t.trace := by
  rcases step_trace hstep with hsame | ⟨e, he, _⟩
  · rw [hsame]
    exact List.Subset.refl _
  · rw [he]
    exact List.subset_append_left _ _

theorem Asked.mono {target : Text} (h : Asked lib trace q target) (htrace : trace ⊆ trace') :
    Asked lib trace' q target := by
  obtain ⟨hrecv, msg, name, more, hmsg, hname, hfound⟩ := h
  exact ⟨htrace hrecv, msg, name, more, hmsg, hname, htrace hfound⟩

theorem Owns.mono (h : Owns lib objs trace c q) (hobjs : Kept objs objs')
    (htrace : trace ⊆ trace') : Owns lib objs' trace' c q := by
  obtain ⟨o, ho, hbase, hasked⟩ := h
  obtain ⟨o', ho', hbase', htarget⟩ := hobjs c o ho
  exact ⟨o', ho', hbase'.trans hbase, htarget ▸ hasked.mono htrace⟩

/-! ### Owners -/

/-- What a loop has found out about the query it holds. -/
def Holds (lib : Lib) (objs : DnsId → Option DNSConn) (trace : List Event) (r : ClientId) :
    ProcPc → Prop
  | .off | .read => True
  | .target q name => q.client = r ∧ .received q ∈ trace ∧
      ∃ msg more, lib.unpack q.data = some msg ∧ msg.question = name :: more
  | .lookup q target | .create q target => q.client = r ∧ Asked lib trace q target
  | .calling q c | .store q c | .push q c => q.client = r ∧ Owns lib objs trace c q

theorem Holds.mono (h : Holds lib objs trace r pc) (hobjs : Kept objs objs')
    (htrace : trace ⊆ trace') : Holds lib objs' trace' r pc := by
  cases pc with
  | off => trivial
  | read => trivial
  | target q name => exact ⟨h.1, htrace h.2.1, h.2.2⟩
  | lookup q target => exact ⟨h.1, h.2.mono htrace⟩
  | create q target => exact ⟨h.1, h.2.mono htrace⟩
  | calling q c => exact ⟨h.1, h.2.mono hobjs htrace⟩
  | store q c => exact ⟨h.1, h.2.mono hobjs htrace⟩
  | push q c => exact ⟨h.1, h.2.mono hobjs htrace⟩

theorem holds_goto (h : ∀ r, Holds lib objs trace r (loops r)) (hpc : Holds lib objs trace r pc) :
    ∀ r', Holds lib objs trace r' (Function.update loops r pc r') := by
  intro r'
  by_cases heq : r' = r
  · subst heq
    rwa [Function.update_self]
  · rw [Function.update_of_ne heq]
    exact h r'

theorem step_holds (hs : s.InOrder) (h : ∀ r, Holds lib s.objs s.trace r (s.loops r))
    (hstep : Step lib s a t) : ∀ r, Holds lib t.objs t.trace r (t.loops r) := by
  have hold : ∀ r, Holds lib t.objs t.trace r (s.loops r) :=
    fun r => (h r).mono (step_kept hs hstep) (step_subset hstep)
  have here : ∀ {r pc}, s.loops r = pc → Holds lib t.objs t.trace r pc := by
    rintro r pc rfl
    exact hold r
  cases hstep with
  | served => exact holds_goto hold trivial
  | ended => exact holds_goto hold trivial
  | received hpc hlen hmsg hname =>
      exact holds_goto hold ⟨rfl, by simp, _, _, hmsg, hname⟩
  | found hpc =>
      obtain ⟨hclient, hrecv, msg, more, hmsg, hname⟩ := here hpc
      exact holds_goto hold ⟨hclient, hrecv, msg, _, more, hmsg, hname, by simp⟩
  | @hit r q target c hpc hentry =>
      obtain ⟨hclient, hasked⟩ := here hpc
      obtain ⟨o, ho, hkey⟩ := hs.entry _ c hentry
      obtain ⟨_, _, hmade⟩ := hs.made c o ho
      rw [hmade] at hkey
      obtain ⟨haddr, htarget⟩ := connKey_inj hkey
      have hrun : s.loops r ≠ .off := by
        rw [hpc]
        nofun
      have hbase : o.base = r := by
        refine hs.distinct _ _ (Or.inr ⟨c, o, ho, ?_, rfl⟩) (Or.inl hrun) haddr
        rwa [hmade, hkey]
      exact holds_goto hold ⟨hclient, o, ho, hbase.trans hclient.symm, htarget ▸ hasked⟩
  | missed hpc =>
      have hpc := here hpc
      exact holds_goto hold hpc
  | refused => exact holds_goto hold trivial
  | opened hpc =>
      obtain ⟨hclient, hasked⟩ := here hpc
      exact holds_goto hold ⟨hclient, _, Function.update_self .., hclient.symm, hasked⟩
  | failed => exact holds_goto hold trivial
  | returned hpc =>
      have hpc := here hpc
      exact holds_goto hold hpc
  | stored hpc =>
      have hpc := here hpc
      exact holds_goto hold hpc
  | pushed => exact holds_goto hold trivial
  | _ => exact hold

/-! ### Order -/

/-- The query a loop holds. -/
def ProcPc.query : ProcPc → Option Query
  | .off | .read => none
  | .target q _ | .lookup q _ | .create q _ | .calling q _ | .store q _ | .push q _ => some q

/-- The numbers of the queries seen so far, and of the one a loop is about to queue. -/
structure Numbered (loops : ClientId → ProcPc) (nextQuery : Nat) (trace : List Event) : Prop where
  held : ∀ r q, (loops r).query = some q → q.client = r ∧ q.id < nextQuery ∧
    ∀ c q', .queued c q' ∈ trace → q'.client = r → q'.id < q.id
  queued : ∀ c q, .queued c q ∈ trace → q.id < nextQuery
  received : ∀ q, .received q ∈ trace → q.id < nextQuery
  arrival : (select Event.arrived trace).Pairwise fun q q' => q.id < q'.id
  once : (select Event.queuedQuery trace).Nodup

theorem mem_queuedQuery : q ∈ select Event.queuedQuery trace ↔ ∃ c, .queued c q ∈ trace := by
  simp only [select, List.mem_filterMap]
  constructor
  · rintro ⟨e, he, hq⟩
    cases e with
    | queued c q' =>
        cases hq
        exact ⟨c, he⟩
    | _ => cases hq
  · rintro ⟨c, he⟩
    exact ⟨_, he, rfl⟩

theorem mem_queuedOn : q ∈ select (Event.queuedOn c) trace ↔ .queued c q ∈ trace := by
  simp only [select, List.mem_filterMap]
  constructor
  · rintro ⟨e, he, hq⟩
    cases e with
    | queued c' q' =>
        obtain ⟨hc, hq⟩ := Option.ite_none_right_eq_some.mp hq
        rw [← hc, ← Option.some.inj hq]
        exact he
    | _ => cases hq
  · intro he
    exact ⟨_, he, if_pos rfl⟩

theorem mem_arrived : q ∈ select Event.arrived trace ↔ .received q ∈ trace := by
  simp only [select, List.mem_filterMap]
  constructor
  · rintro ⟨e, he, hq⟩
    cases e with
    | received q' =>
        cases hq
        exact he
    | _ => cases hq
  · intro he
    exact ⟨_, he, rfl⟩

namespace Numbered

theorem goto (h : Numbered loops nextQuery trace)
    (hpc : ∀ q, pc.query = some q → (loops r).query = some q) :
    Numbered (Function.update loops r pc) nextQuery trace := by
  refine { h with held := ?_ }
  intro r' q hq
  by_cases heq : r' = r
  · subst heq
    rw [Function.update_self] at hq
    exact h.held r' q (hpc q hq)
  · rw [Function.update_of_ne heq] at hq
    exact h.held r' q hq

/-- Another event than the arrival or the queueing of a query. -/
theorem emit (h : Numbered loops nextQuery trace) (harrived : e.arrived = none := by rfl)
    (hqueued : e.queuedQuery = none := by rfl) : Numbered loops nextQuery (trace ++ [e]) := by
  have queued : ∀ c q, .queued c q ∈ trace ++ [e] → .queued c q ∈ trace := by
    intro c q hmem
    rcases List.mem_append.mp hmem with hmem | hmem
    · exact hmem
    · cases List.mem_singleton.mp hmem
      cases hqueued
  have received : ∀ q, .received q ∈ trace ++ [e] → .received q ∈ trace := by
    intro q hmem
    rcases List.mem_append.mp hmem with hmem | hmem
    · exact hmem
    · cases List.mem_singleton.mp hmem
      cases harrived
  refine ⟨?_, ?_, ?_, ?_, ?_⟩
  · intro r q hq
    obtain ⟨hclient, hlt, hall⟩ := h.held r q hq
    exact ⟨hclient, hlt, fun c q' hmem => hall c q' (queued c q' hmem)⟩
  · exact fun c q hmem => h.queued c q (queued c q hmem)
  · exact fun q hmem => h.received q (received q hmem)
  · rw [select_snoc_of_none harrived]
    exact h.arrival
  · rw [select_snoc_of_none hqueued]
    exact h.once

/-- The next query arrives. -/
theorem receive (h : Numbered loops nextQuery trace) (hclient : q.client = r)
    (hid : q.id = nextQuery) (hpc : pc.query = some q) :
    Numbered (Function.update loops r pc) (nextQuery + 1) (trace ++ [.received q]) := by
  have queued : ∀ c q', .queued c q' ∈ trace ++ [.received q] → .queued c q' ∈ trace := by
    intro c q' hmem
    simpa using hmem
  refine ⟨?_, ?_, ?_, ?_, ?_⟩
  · intro r' q' hq'
    by_cases heq : r' = r
    · subst heq
      rw [Function.update_self, hpc] at hq'
      cases hq'
      refine ⟨hclient, by omega, ?_⟩
      intro c q' hmem _
      rw [hid]
      exact h.queued c q' (queued c q' hmem)
    · rw [Function.update_of_ne heq] at hq'
      obtain ⟨hclient', hlt, hall⟩ := h.held r' q' hq'
      exact ⟨hclient', by omega, fun c q'' hmem => hall c q'' (queued c q'' hmem)⟩
  · intro c q' hmem
    have := h.queued c q' (queued c q' hmem)
    omega
  · intro q' hmem
    rcases List.mem_append.mp hmem with hmem | hmem
    · have := h.received q' hmem
      omega
    · cases List.mem_singleton.mp hmem
      omega
  · rw [select_snoc]
    refine List.pairwise_append.mpr ⟨h.arrival, List.pairwise_singleton _ _, ?_⟩
    intro q' hq' x hx
    cases List.mem_singleton.mp hx
    rw [hid]
    exact h.received q' (mem_arrived.mp hq')
  · rw [select_snoc_of_none rfl]
    exact h.once

/-- A loop queues the query it holds. -/
theorem push (h : Numbered loops nextQuery trace) (hq : (loops r).query = some q) :
    Numbered (Function.update loops r .read) nextQuery (trace ++ [.queued c q]) := by
  obtain ⟨hclient, hlt, hall⟩ := h.held r q hq
  have queued : ∀ c' q', .queued c' q' ∈ trace ++ [.queued c q] →
      .queued c' q' ∈ trace ∨ q' = q := by
    intro c' q' hmem
    rcases List.mem_append.mp hmem with hmem | hmem
    · exact Or.inl hmem
    · cases List.mem_singleton.mp hmem
      exact Or.inr rfl
  refine ⟨?_, ?_, ?_, ?_, ?_⟩
  · intro r' q' hq'
    by_cases heq : r' = r
    · subst heq
      rw [Function.update_self] at hq'
      cases hq'
    · rw [Function.update_of_ne heq] at hq'
      obtain ⟨hclient', hlt', hall'⟩ := h.held r' q' hq'
      refine ⟨hclient', hlt', ?_⟩
      intro c' q'' hmem hr'
      rcases queued c' q'' hmem with hmem | rfl
      · exact hall' c' q'' hmem hr'
      · exact absurd (hr'.symm.trans hclient) heq
  · intro c' q' hmem
    rcases queued c' q' hmem with hmem | rfl
    · exact h.queued c' q' hmem
    · exact hlt
  · intro q' hmem
    exact h.received q' (by simpa using hmem)
  · rw [select_snoc_of_none rfl]
    exact h.arrival
  · rw [select_snoc]
    refine List.nodup_append.mpr ⟨h.once, List.pairwise_singleton _ _, ?_⟩
    intro q' hq' x hx
    cases List.mem_singleton.mp hx
    obtain ⟨c', hmem⟩ := mem_queuedQuery.mp hq'
    rintro rfl
    exact absurd (hall c' q' hmem hclient) (Nat.lt_irrefl _)

end Numbered

theorem step_numbered (h : Numbered s.loops s.nextQuery s.trace) (hstep : Step lib s a t) :
    Numbered t.loops t.nextQuery t.trace := by
  have keep : ∀ {r : ClientId} {pc pc' : ProcPc}, s.loops r = pc → pc'.query = pc.query →
      ∀ q, pc'.query = some q → (s.loops r).query = some q := by
    rintro r pc pc' rfl heq q hq
    rwa [← heq]
  cases hstep with
  | accepted => exact h.emit
  | served =>
      have hread : Numbered (Function.update s.loops s.nextClient .read) s.nextQuery s.trace :=
        h.goto nofun
      exact hread.emit
  | ended => exact h.goto nofun
  | received => exact h.receive rfl rfl rfl
  | @found r q name target hpc =>
      have hlookup : Numbered (Function.update s.loops r (.lookup q target)) s.nextQuery s.trace :=
        h.goto (keep hpc rfl)
      exact hlookup.emit
  | hit hpc => exact h.goto (keep hpc rfl)
  | missed hpc => exact h.goto (keep hpc rfl)
  | refused => exact h.goto nofun
  | @opened r q target route hpc =>
      have hcalling : Numbered (Function.update s.loops r (.calling q s.nextConn)) s.nextQuery
          s.trace := h.goto (keep hpc rfl)
      exact hcalling.emit
  | failed => exact h.goto nofun
  | returned hpc => exact h.goto (keep hpc rfl)
  | stored hpc => exact h.goto (keep hpc rfl)
  | pushed hpc => exact h.push (by rw [hpc]; rfl)
  | taken => exact h.emit
  | responded => exact h.emit
  | relayed => exact h.emit
  | _ => exact h

/-! ### Queues -/

/-- The queries that wait in a connection. -/
def waiting (objs : DnsId → Option DNSConn) (c : DnsId) : List Query :=
  match objs c with
  | some o => o.readQueued.buf
  | none => []

theorem waiting_of_some (ho : objs c = some o) : waiting objs c = o.readQueued.buf := by
  rw [waiting, ho]

/-- What was taken from a connection and what waits in it was queued, in this order. -/
def Fifo (objs : DnsId → Option DNSConn) (trace : List Event) : Prop :=
  ∀ c, select (Event.takenOn c) trace ++ waiting objs c = select (Event.queuedOn c) trace

namespace Fifo

theorem emit (h : Fifo objs trace) (htaken : ∀ c, e.takenOn c = none := by exact fun _ => rfl)
    (hqueued : ∀ c, e.queuedOn c = none := by exact fun _ => rfl) : Fifo objs (trace ++ [e]) := by
  intro c
  rw [select_snoc_of_none (htaken c), select_snoc_of_none (hqueued c)]
  exact h c

/-- The queue of one connection has the same content. -/
theorem setConn (h : Fifo objs trace) (hbuf : o.readQueued.buf = waiting objs c) :
    Fifo (Function.update objs c (some o)) trace := by
  intro c'
  have hsame : waiting (Function.update objs c (some o)) c' = waiting objs c' := by
    by_cases heq : c' = c
    · subst heq
      rw [waiting_of_some (Function.update_self ..), hbuf]
    · rw [waiting, waiting, Function.update_of_ne heq]
  rw [hsame]
  exact h c'

theorem push {ch : Chan Query} (h : Fifo objs trace) (ho : objs c = some o)
    (hbuf : ch.buf = o.readQueued.buf ++ [q]) :
    Fifo (Function.update objs c (some { o with readQueued := ch })) (trace ++ [.queued c q]) := by
  intro c'
  have hc' := h c'
  rw [select_snoc_of_none rfl, select_snoc]
  by_cases heq : c' = c
  · subst heq
    rw [waiting_of_some ho] at hc'
    rw [waiting_of_some (Function.update_self ..), ← hc', List.append_assoc]
    simp [Event.queuedOn, hbuf]
  · have hnone : (Event.queued c q).queuedOn c' = none := if_neg (Ne.symm heq)
    rw [hnone, waiting, Function.update_of_ne heq, Option.toList_none, List.append_nil]
    exact hc'

theorem take {ch : Chan Query} (h : Fifo objs trace) (ho : objs c = some o)
    (hbuf : o.readQueued.buf = q :: ch.buf) :
    Fifo (Function.update objs c (some { o with readQueued := ch })) (trace ++ [.taken c q]) := by
  intro c'
  have hc' := h c'
  rw [select_snoc_of_none (f := Event.queuedOn c') rfl, select_snoc]
  by_cases heq : c' = c
  · subst heq
    rw [waiting_of_some ho, hbuf] at hc'
    rw [waiting_of_some (Function.update_self ..), ← hc', List.append_assoc]
    simp [Event.takenOn]
  · have hnone : (Event.taken c q).takenOn c' = none := if_neg (Ne.symm heq)
    rw [hnone, waiting, Function.update_of_ne heq, Option.toList_none, List.append_nil]
    exact hc'

end Fifo

theorem step_fifo (hs : s.InOrder) (h : Fifo s.objs s.trace) (hstep : Step lib s a t) :
    Fifo t.objs t.trace := by
  cases hstep with
  | accepted => exact h.emit
  | served => exact h.emit
  | received => exact h.emit
  | found => exact h.emit
  | @opened r q target route =>
      have hnone : s.objs s.nextConn = none := by
        apply Option.eq_none_iff_forall_ne_some.mpr
        intro o ho
        exact Nat.lt_irrefl _ (hs.made _ o ho).1
      have hnew : Fifo (Function.update s.objs s.nextConn
          (some (newDNSConn (connKey (s.addr r) target) r target))) s.trace := by
        apply h.setConn
        rw [waiting, hnone]
        rfl
      exact hnew.emit
  | pushed _ ho hsend => exact h.push ho (Chan.send_done hsend).2.2.1
  | taken ho hrecv => exact h.take ho (Chan.recv_some hrecv).1
  | responded => exact h.emit
  | relayed => exact h.emit
  | marked _ ho => exact h.setConn (waiting_of_some ho).symm
  | queueClosed _ ho hclose =>
      apply h.setConn
      rw [waiting_of_some ho]
      exact (Chan.close_done hclose).2.1
  | _ => exact h

/-! ### Isolation -/

/-- A connection is made for a query, and responses on it go to its client. -/
structure Answering (lib : Lib) (s : Sys) : Prop where
  asked : ∀ c o, s.objs c = some o → ∃ q, q.client = o.base ∧ Asked lib s.trace q o.target
  made : ∀ c p, .answered c p ∈ s.trace → (s.objs c).isSome
  response : Each (fun before e => ∀ c r p, e = .relayed c r p →
    ∃ o q, s.objs c = some o ∧ o.base = r ∧ q.client = r ∧ Asked lib before q o.target) s.trace

theorem step_answering (hs : s.InOrder) (hholds : ∀ r, Holds lib s.objs s.trace r (s.loops r))
    (h : Answering lib s) (hstep : Step lib s a t) : Answering lib t := by
  have hkept := step_kept hs hstep
  have hsubset := step_subset hstep
  constructor
  · intro c o ho
    rcases step_made hstep ho with ⟨x, hx, hbase, htarget⟩ | ⟨q, hpc⟩
    · obtain ⟨q, hq, hasked⟩ := h.asked c x hx
      exact ⟨q, hq.trans hbase, htarget ▸ hasked.mono hsubset⟩
    · have hq := hholds o.base
      rw [hpc] at hq
      exact ⟨q, hq.1, hq.2.mono hsubset⟩
  · have hold : ∀ c, (s.objs c).isSome → (t.objs c).isSome := by
      intro c hc
      obtain ⟨o, ho⟩ := Option.isSome_iff_exists.mp hc
      obtain ⟨o', ho', _⟩ := hkept c o ho
      rw [ho']
      rfl
    intro c p hmem
    rcases step_trace hstep with hsame | ⟨e, htrace, hemit⟩
    · rw [hsame] at hmem
      exact hold c (h.made c p hmem)
    · rw [htrace] at hmem
      rcases List.mem_append.mp hmem with hmem | hmem
      · exact hold c (h.made c p hmem)
      · cases List.mem_singleton.mp hmem
        exact hold c (Option.isSome_iff_exists.mpr hemit)
  · have hold : Each (fun before e => ∀ c r p, e = .relayed c r p → ∃ o q, t.objs c = some o ∧
        o.base = r ∧ q.client = r ∧ Asked lib before q o.target) s.trace := by
      refine Each.mono h.response ?_
      intro before e he c r p hrelayed
      obtain ⟨o, q, ho, hbase, hq, hasked⟩ := he c r p hrelayed
      obtain ⟨o', ho', hbase', htarget⟩ := hkept c o ho
      exact ⟨o', q, ho', hbase'.trans hbase, hq, htarget ▸ hasked⟩
    rcases step_trace hstep with hsame | ⟨e, htrace, hemit⟩
    · rwa [hsame]
    · rw [htrace]
      refine each_snoc.mpr ⟨hold, ?_⟩
      rintro c r p rfl
      obtain ⟨o, ho, hbase⟩ := hemit
      obtain ⟨q, hq, hasked⟩ := h.asked c o ho
      obtain ⟨o', ho', hbase', htarget⟩ := hkept c o ho
      exact ⟨o', q, ho', hbase'.trans hbase, hq.trans hbase, htarget ▸ hasked⟩

/-- Everything that is known about the queries under way. -/
structure Serving (lib : Lib) (s : Sys) : Prop where
  holds : ∀ r, Holds lib s.objs s.trace r (s.loops r)
  numbered : Numbered s.loops s.nextQuery s.trace
  fifo : Fifo s.objs s.trace
  owner : ∀ c q, .queued c q ∈ s.trace → Owns lib s.objs s.trace c q
  inOrder : ∀ c, (select (Event.queuedOn c) s.trace).Pairwise fun q q' => q.id < q'.id
  answering : Answering lib s

/-- The loop about to queue on a connection holds a later query than were queued on it. -/
theorem queued_before (h : Serving lib s) {q' : Query} (hpc : s.loops r = .push q c)
    (hmem : .queued c q' ∈ s.trace) : q'.id < q.id := by
  have hholds := h.holds r
  rw [hpc] at hholds
  obtain ⟨hclient, o, ho, hbase, _⟩ := hholds
  obtain ⟨o', ho', hbase', _⟩ := h.owner c q' hmem
  rw [ho] at ho'
  cases ho'
  obtain ⟨_, _, hall⟩ := h.numbered.held r q (by rw [hpc]; rfl)
  exact hall c q' hmem (by rw [← hbase', hbase, hclient])

theorem step_serving (hs : s.InOrder) (h : Serving lib s) (hstep : Step lib s a t) :
    Serving lib t := by
  have hkept := step_kept hs hstep
  have hsubset := step_subset hstep
  refine ⟨step_holds hs h.holds hstep, step_numbered h.numbered hstep, step_fifo hs h.fifo hstep,
    ?_, ?_, step_answering hs h.holds h.answering hstep⟩
  · intro c q hq
    have hold : .queued c q ∈ s.trace → Owns lib t.objs t.trace c q :=
      fun hq => (h.owner c q hq).mono hkept hsubset
    rcases step_trace hstep with hsame | ⟨e, htrace, hemit⟩
    · exact hold (hsame ▸ hq)
    · rw [htrace] at hq
      rcases List.mem_append.mp hq with hq | hq
      · exact hold hq
      · cases List.mem_singleton.mp hq
        obtain ⟨r, hpc⟩ := hemit
        have hholds := h.holds r
        rw [hpc] at hholds
        exact hholds.2.mono hkept hsubset
  · intro c
    rcases step_trace hstep with hsame | ⟨e, htrace, hemit⟩
    · rw [hsame]
      exact h.inOrder c
    · rw [htrace]
      cases e with
      | queued c' q =>
          by_cases heq : c' = c
          · subst heq
            have hsome : (Event.queued c' q).queuedOn c' = some q := if_pos rfl
            obtain ⟨r, hpc⟩ := hemit
            rw [select_snoc, hsome]
            refine List.pairwise_append.mpr ⟨h.inOrder c', List.pairwise_singleton _ _, ?_⟩
            intro q' hq' x hx
            cases List.mem_singleton.mp hx
            exact queued_before h hpc (mem_queuedOn.mp hq')
          · have hnone : (Event.queued c' q).queuedOn c = none := if_neg heq
            rw [select_snoc_of_none hnone]
            exact h.inOrder c
      | _ =>
          rw [select_snoc_of_none rfl]
          exact h.inOrder c

theorem reachable_serving (h : (csocks lib).Reachable s) : Serving lib s := by
  refine Machine.Reachable.invariant_of (I := Serving lib) h reachable_inOrder ?_ ?_
  · refine ⟨fun _ => trivial, ⟨nofun, nofun, nofun, List.Pairwise.nil, List.Pairwise.nil⟩,
      fun _ => rfl, nofun, fun _ => List.Pairwise.nil, nofun, nofun,
      each_nil _⟩
  · intro s a t hs _ hserving hstep
    exact step_serving hs hserving (Sys.step_cases hstep)

/-- Queries and responses stay with their clients and targets, for any clients and any
closes. -/
theorem reachable_isolated (h : (csocks lib).Reachable s) : Isolated lib s := by
  have hserving := reachable_serving h
  refine ⟨hserving.numbered.arrival, hserving.owner, hserving.numbered.once, hserving.inOrder, ?_,
    hserving.answering.response⟩
  intro c o ho
  rw [← waiting_of_some ho]
  exact hserving.fifo c

/-- Two clients ask at the same time, and one asks again. -/
theorem reachable_isolated_two : ∃ s, (csocks sampleLib).Reachable s ∧
    Event.queued 1 ⟨0, 0, question⟩ ∈ s.trace ∧ Event.queued 0 ⟨1, 1, question⟩ ∈ s.trace ∧
      Event.relayed 1 0 response ∈ s.trace ∧ Isolated sampleLib s := by
  obtain ⟨tr, s, hrun, _, htest⟩ := Machine.exists_run_of_exec (csocks sampleLib)
    (fun _ _ => true)
    [.accept .udp ⟨[1, 1, 1, 1], Or.inl rfl⟩ 53 4096,
      .accept .udp ⟨[1, 1, 1, 1], Or.inl rfl⟩ 53 8192,
      .recv 0 (some question), .recv 1 (some question),
      .target 1 ['d', 'n', 's', ':', '/', '/', 'l'], .target 0 ['d', 'n', 's', ':', '/', '/', 'l'],
      .lookup 0, .lookup 1, .create 1, .create 0, .returned 0 true, .returned 1 true,
      .store 1, .store 0, .push 0, .push 1, .recv 0 (some question),
      .target 0 ['d', 'n', 's', ':', '/', '/', 'l'], .lookup 0, .push 0, .connRead 1,
      .respond 7 1 response, .written 7 true]
    (fun s => Event.queued 1 ⟨0, 0, question⟩ ∈ s.trace ∧
      Event.queued 0 ⟨1, 1, question⟩ ∈ s.trace ∧ Event.relayed 1 0 response ∈ s.trace) (by decide)
  obtain ⟨hfirst, hsecond, hrelayed⟩ := of_decide_eq_true htest
  exact ⟨s, hrun.reachable, hfirst, hsecond, hrelayed, reachable_isolated hrun.reachable⟩

end Csocks

end LwipCs
