import LwipCs.Csocks.Isolation

/-!
# What becomes of the queries of a client

A query that a `proc` loop has read is queued on one connection, or it is dropped: where
`PACProcessor` cannot parse the target, and where the next processor fails after it was handed the
connection. The queries of a client are settled in the order in which they were read, so each
connection gets those of the client that were not dropped and not meant for another connection, in
order.
-/

namespace LwipCs

namespace Csocks

open Interleave

/-- What became of a query. -/
inductive Fate
  | queued (c : DnsId)
  | dropped
  deriving DecidableEq, Repr

/-- The query a step settles: the call of `Next` or the send ends its iteration. -/
def settles (lib : Lib) (s : Sys) : Act → Option (Query × Fate)
  | .create r =>
      match s.loops r with
      | .create q target =>
          match pacProcessor lib s.record target with
          | .failed _ => some (q, .dropped)
          | _ => none
      | _ => none
  | .returned r ok =>
      match s.loops r with
      | .calling q _ => if ok then none else some (q, .dropped)
      | _ => none
  | .push r =>
      match s.loops r with
      | .push q c =>
          -- the send on a closed queue ends the process
          if (s.objs c).any fun o => o.readQueued.closed then none else some (q, .queued c)
      | _ => none
  | _ => none

/-- The queries of `r` that were settled in a run, in order. -/
def settled (lib : Lib) (r : ClientId) (tr : List (Sys × Act)) : List (Query × Fate) :=
  tr.filterMap fun x => (settles lib x.1 x.2).filter fun y => y.1.client = r

def Event.arrivedFrom (r : ClientId) : Event → Option Query
  | .received q => if q.client = r then some q else none
  | _ => none

def Fate.on (c : DnsId) (x : Query × Fate) : Option Query :=
  if x.2 = .queued c then some x.1 else none

/-- Every query read from a client was queued or dropped or is in the hands of its loop, and what
was read from a connection, and then what waits in it, are the queries of its client that were
queued on it. -/
structure Accounted (lib : Lib) (tr : List (Sys × Act)) (s : Sys) : Prop where
  received : ∀ r, select (Event.arrivedFrom r) s.trace =
    (settled lib r tr).map Prod.fst ++ (s.loops r).query.toList
  taken : ∀ c o, s.objs c = some o → select (Event.takenOn c) s.trace ++ o.readQueued.buf =
    (settled lib o.base tr).filterMap (Fate.on c)

variable {lib : Lib} {s t : Sys} {a : Act} {tr : List (Sys × Act)} {r : ClientId} {q : Query}
variable {c : DnsId}

theorem settled_snoc : settled lib r (tr ++ [(s, a)]) =
    settled lib r tr ++ ((settles lib s a).filter fun y => y.1.client = r).toList := by
  rw [settled, List.filterMap_append, settled]
  cases hnow : (settles lib s a).filter fun y => y.1.client = r with
  | none => simp [hnow]
  | some x => simp [hnow]

/-- A step that settles no query. -/
theorem settled_of_none (h : settles lib s a = none) :
    settled lib r (tr ++ [(s, a)]) = settled lib r tr := by
  rw [settled_snoc, h]
  exact List.append_nil _

theorem settled_of_some {fate : Fate} (h : settles lib s a = some (q, fate)) :
    settled lib r (tr ++ [(s, a)]) =
      settled lib r tr ++ if q.client = r then [(q, fate)] else [] := by
  rw [settled_snoc, h]
  by_cases hq : q.client = r <;> simp [hq]

/-! ### The queries of a client -/

/-- What is in the account of a client: all it settled, and the query in hand. -/
def account (lib : Lib) (tr : List (Sys × Act)) (loops : ClientId → ProcPc) (r : ClientId) :
    List Query :=
  (settled lib r tr).map Prod.fst ++ (loops r).query.toList

/-- The loop of a client goes on with the query it has. -/
theorem account_goto {loops : ClientId → ProcPc} {i : ClientId} {pc : ProcPc}
    (hsettles : settles lib s a = none) (hpc : pc.query = (loops i).query) :
    account lib (tr ++ [(s, a)]) (Function.update loops i pc) r = account lib tr loops r := by
  rw [account, settled_of_none hsettles, account]
  by_cases hr : r = i
  · subst hr
    rw [Function.update_self, hpc]
  · rw [Function.update_of_ne hr]

/-- The loop of a client is done with its query. -/
theorem account_settle {loops : ClientId → ProcPc} {i : ClientId} {pc : ProcPc} {fate : Fate}
    (hsettles : settles lib s a = some (q, fate)) (hq : (loops i).query = some q)
    (hclient : q.client = i) (hpc : pc.query = none) :
    account lib (tr ++ [(s, a)]) (Function.update loops i pc) r = account lib tr loops r := by
  rw [account, settled_of_some hsettles, account]
  by_cases hr : r = i
  · subst hr
    rw [Function.update_self, hpc, if_pos hclient, hq]
    simp
  · rw [Function.update_of_ne hr, if_neg (by rw [hclient]; exact Ne.symm hr), List.append_nil]

/-- `create` drops the query or makes a connection for it. -/
theorem create_cases {i : ClientId} (h : s.create lib i = some t) :
    ∃ q target, s.loops i = .create q target ∧
      ((settles lib s (.create i) = some (q, .dropped) ∧ t = s.setLoop i .read) ∨
        (settles lib s (.create i) = none ∧ ∃ route,
          t = ((({ s with nextConn := s.nextConn + 1 }).setConn s.nextConn
              (newDNSConn (connKey (s.addr i) target) i target)).emit
            (.opened s.nextConn route)).setLoop i (.calling q s.nextConn))) := by
  unfold Sys.create at h
  split at h
  · rename_i q target hpc
    refine ⟨q, target, hpc, ?_⟩
    split at h
    · rename_i why hroute
      cases h
      refine Or.inl ⟨?_, rfl⟩
      simp only [settles, hpc, hroute]
    · rename_i hroute
      cases h
      refine Or.inr ⟨?_, _, rfl⟩
      simp only [settles, hpc]
  · cases h

/-- The account of every client grows by what is read from it. -/
theorem step_account (hs : s.InOrder) (hnumbered : Numbered s.loops s.nextQuery s.trace)
    (hstep : s.step lib a = some t)
    (h : select (Event.arrivedFrom r) s.trace = account lib tr s.loops r) :
    select (Event.arrivedFrom r) t.trace = account lib (tr ++ [(s, a)]) t.loops r := by
  have hclient : ∀ i q, (s.loops i).query = some q → q.client = i :=
    fun i q hq => (hnumbered.held i q hq).1
  -- nothing is read, and the loop that moves keeps its query
  have keeps : ∀ {i : ClientId} {pc : ProcPc}, settles lib s a = none →
      pc.query = (s.loops i).query →
      select (Event.arrivedFrom r) s.trace =
        account lib (tr ++ [(s, a)]) (Function.update s.loops i pc) r :=
    fun hsettles hpc => h.trans (account_goto hsettles hpc).symm
  have stays : settles lib s a = none →
      select (Event.arrivedFrom r) s.trace = account lib (tr ++ [(s, a)]) s.loops r := by
    intro hsettles
    rw [h, account, account, settled_of_none hsettles]
  -- the loop that moves is done with its query
  have done : ∀ {i : ClientId} {pc : ProcPc} {q : Query} {fate : Fate},
      settles lib s a = some (q, fate) → (s.loops i).query = some q → pc.query = none →
      select (Event.arrivedFrom r) s.trace =
        account lib (tr ++ [(s, a)]) (Function.update s.loops i pc) r :=
    fun hsettles hq hpc => h.trans (account_settle hsettles hq (hclient _ _ hq) hpc).symm
  have hcases := Sys.step_cases hstep
  cases a with
  | create i =>
      obtain ⟨q, target, hpc, ⟨hsettles, rfl⟩ | ⟨hsettles, route, rfl⟩⟩ :=
        create_cases (Sys.alive_of_step hstep).2
      · exact done hsettles (by rw [hpc]; rfl) rfl
      · show select (Event.arrivedFrom r) (s.trace ++ [.opened s.nextConn route]) = _
        rw [select_snoc_of_none rfl]
        exact keeps hsettles (by rw [hpc]; rfl)
  | accept type ip port addr =>
      cases hcases with
      | accepted _ =>
          rw [select_snoc_of_none rfl]
          exact stays rfl
      | served _ _ =>
          rw [select_snoc_of_none rfl]
          apply keeps rfl
          -- the loop that starts was off
          by_cases hoff : s.loops s.nextClient = .off
          · rw [hoff]
            rfl
          · exact absurd (hs.started _ hoff) (Nat.lt_irrefl _)
  | recv i data =>
      cases hcases with
      | ended hpc _ => exact keeps rfl (by rw [hpc]; rfl)
      | noQuestion _ _ _ => exact stays rfl
      | @received _ buf _ _ _ hpc _ _ _ =>
          rw [select_snoc, account, settled_of_none rfl, h, account]
          by_cases hr : r = i
          · subst hr
            simp [hpc, ProcPc.query, Event.arrivedFrom]
          · have hother : (Event.received ⟨s.nextQuery, i, buf⟩).arrivedFrom r = none :=
              if_neg (Ne.symm hr)
            simp only [hother, Function.update_of_ne hr]
            exact List.append_nil _
  | target i target =>
      cases hcases with
      | found hpc =>
          rw [select_snoc_of_none rfl]
          exact keeps rfl (by rw [hpc]; rfl)
  | lookup i =>
      cases hcases with
      | hit hpc _ => exact keeps rfl (by rw [hpc]; rfl)
      | missed hpc _ => exact keeps rfl (by rw [hpc]; rfl)
  | returned i ok =>
      cases hcases with
      | failed hpc => exact done (by simp only [settles, hpc]; rfl) (by rw [hpc]; rfl) rfl
      | returned hpc => exact keeps (by simp only [settles, hpc]; rfl) (by rw [hpc]; rfl)
  | store i =>
      cases hcases with
      | stored hpc _ => exact keeps rfl (by rw [hpc]; rfl)
  | push i =>
      cases hcases with
      | @pushed _ q c o ch hpc ho hsend =>
          rw [select_snoc_of_none rfl]
          have hopen := (Chan.send_done hsend).1
          have hsettles : settles lib s (.push i) = some (q, .queued c) := by
            simp [settles, hpc, ho, hopen]
          exact done hsettles (by rw [hpc]; rfl) rfl
      | pushClosed hpc ho hclosed => exact stays (by simp [settles, hpc, ho, hclosed])
  | connRead c =>
      cases hcases with
      | taken _ _ =>
          rw [select_snoc_of_none rfl]
          exact stays rfl
      | drained => exact stays rfl
  | respond i c p =>
      cases hcases with
      | responded _ =>
          rw [select_snoc_of_none rfl]
          exact stays rfl
  | written i ok =>
      cases hcases with
      | relayed _ _ =>
          rw [select_snoc_of_none rfl]
          exact stays rfl
      | writeFailed => exact stays rfl
  | close i c =>
      cases hcases with
      | close _ _ => exact stays rfl
  | closeStep i => cases hcases <;> exact stays rfl

/-! ### The queries of a connection -/

/-- Only a send queues. -/
theorem step_settles (hstep : s.step lib a = some t) :
    (∃ i q c, s.loops i = .push q c ∧ settles lib s a = some (q, .queued c) ∧
      t.trace = s.trace ++ [.queued c q]) ∨
    ∀ c, (settles lib s a).bind (Fate.on c) = none ∧
      select (Event.queuedOn c) t.trace = select (Event.queuedOn c) s.trace := by
  have hcases := Sys.step_cases hstep
  cases a with
  | push i =>
      cases hcases with
      | @pushed _ q c o ch hpc ho hsend =>
          have hopen := (Chan.send_done hsend).1
          exact Or.inl ⟨i, q, c, hpc, by simp [settles, hpc, ho, hopen], rfl⟩
      | pushClosed hpc ho hclosed =>
          exact Or.inr fun c => ⟨by simp [settles, hpc, ho, hclosed], rfl⟩
  | create i =>
      refine Or.inr fun c => ⟨?_, ?_⟩
      · obtain ⟨q, target, _, ⟨hsettles, _⟩ | ⟨hsettles, _⟩⟩ :=
          create_cases (Sys.alive_of_step hstep).2
        · rw [hsettles]
          rfl
        · rw [hsettles]
          rfl
      · cases hcases with
        | refused _ => rfl
        | opened _ _ => exact select_snoc_of_none rfl _
  | returned i ok =>
      refine Or.inr fun c => ⟨?_, ?_⟩
      · cases hcases with
        | failed hpc => simp [settles, hpc, Fate.on]
        | returned hpc => simp [settles, hpc]
      · cases hcases <;> rfl
  | _ =>
      refine Or.inr fun c => ⟨rfl, ?_⟩
      cases hcases <;> first | rfl | exact select_snoc_of_none rfl _

/-- What is queued on a connection of a client, once it is made. -/
def QueuedBy (lib : Lib) (tr : List (Sys × Act)) (s : Sys) : Prop :=
  ∀ c base, (∀ o, s.objs c = some o → o.base = base) →
    select (Event.queuedOn c) s.trace = (settled lib base tr).filterMap (Fate.on c)

theorem step_queuedBy (hs : s.InOrder) (hholds : ∀ r, Holds lib s.objs s.trace r (s.loops r))
    (h : QueuedBy lib tr s) (hstep : s.step lib a = some t) : QueuedBy lib (tr ++ [(s, a)]) t := by
  intro c base hbase
  have hbefore : ∀ o, s.objs c = some o → o.base = base := by
    intro o ho
    obtain ⟨o', ho', hsame, _⟩ := step_kept hs (Sys.step_cases hstep) c o ho
    rw [← hsame, hbase o' ho']
  obtain ⟨i, q, c', hpc, hsettles, htrace⟩ | hother := step_settles hstep
  · rw [htrace, select_snoc, h c base hbefore, settled_of_some hsettles, List.filterMap_append]
    by_cases hc : c' = c
    · subst hc
      have hholds := hholds i
      rw [hpc] at hholds
      obtain ⟨_, o, ho, howner, _⟩ := hholds
      have hclient : q.client = base := howner.symm.trans (hbefore o ho)
      simp [Event.queuedOn, Fate.on, hclient]
    · have hevent : (Event.queued c' q).queuedOn c = none := if_neg hc
      have hfate : Fate.on c (q, .queued c') = none := if_neg (by simpa using hc)
      rw [hevent]
      split <;> simp [hfate]
  · obtain ⟨hnone, hsame⟩ := hother c
    rw [hsame, h c base hbefore, settled_snoc, List.filterMap_append]
    cases hnow : settles lib s a with
    | none => simp
    | some x =>
        rw [hnow, Option.bind_some] at hnone
        by_cases hx : x.1.client = base <;> simp [hx, hnone]

theorem run_queuedBy (hrun : (csocks lib).Run tr s) : QueuedBy lib tr s := by
  induction hrun with
  | start =>
      intro c base _
      rfl
  | step hrun hstep ih =>
      exact step_queuedBy (reachable_inOrder hrun.reachable)
        (reachable_serving hrun.reachable).holds ih hstep

theorem run_account (hrun : (csocks lib).Run tr s) :
    select (Event.arrivedFrom r) s.trace = account lib tr s.loops r := by
  induction hrun with
  | start => rfl
  | step hrun hstep ih =>
      have hs := reachable_inOrder hrun.reachable
      exact step_account hs (reachable_serving hrun.reachable).numbered hstep ih

/-- In every run the queries of each client are accounted for. -/
theorem run_queriesAccounted (hrun : (csocks lib).Run tr s) : Accounted lib tr s := by
  constructor
  · intro r
    exact run_account hrun
  · intro c o ho
    have hfifo := (reachable_serving hrun.reachable).fifo c
    rw [waiting_of_some ho] at hfifo
    rw [hfifo]
    apply run_queuedBy hrun c o.base
    intro o' ho'
    rw [ho] at ho'
    cases ho'
    rfl

/-- A client asks three times: a target is no URL, the next processor fails, and a query is
queued. -/
theorem run_queriesAccounted_drops : ∃ tr s, (csocks sampleLib).Run tr s ∧
    select (Event.arrivedFrom 0) s.trace =
      [⟨0, 0, question⟩, ⟨1, 0, question⟩, ⟨2, 0, question⟩] ∧
    waiting s.objs 1 = [⟨2, 0, question⟩] ∧ Accounted sampleLib tr s := by
  obtain ⟨tr, s, hrun, _, htest⟩ := Machine.exists_run_of_exec (csocks sampleLib)
    (fun _ _ => true)
    [.accept .udp ⟨[1, 1, 1, 1], Or.inl rfl⟩ 53 4096,
      .recv 0 (some question), .target 0 ['l'], .lookup 0, .create 0,
      .recv 0 (some question), .target 0 ['d', 'n', 's', ':', '/', '/', 'l'], .lookup 0, .create 0,
      .returned 0 false,
      .recv 0 (some question), .target 0 ['d', 'n', 's', ':', '/', '/', 'l'], .lookup 0, .create 0,
      .returned 0 true, .store 0, .push 0]
    (fun s => select (Event.arrivedFrom 0) s.trace =
        [⟨0, 0, question⟩, ⟨1, 0, question⟩, ⟨2, 0, question⟩] ∧
      waiting s.objs 1 = [⟨2, 0, question⟩]) (by decide)
  obtain ⟨harrived, hwaiting⟩ := of_decide_eq_true htest
  exact ⟨tr, s, hrun, harrived, hwaiting, run_queriesAccounted hrun⟩

end Csocks

end LwipCs
