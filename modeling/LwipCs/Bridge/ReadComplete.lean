import LwipCs.Bridge.Delivered
import Mathlib.Data.List.Infix

/-!
# What a single reader gets

The bytes `Read` returns are a prefix of what lwIP delivered. `Read` tests `err`
before it looks at the channel, so it may report an error with chunks still queued.
-/

namespace LwipCs

open Interleave

/-- An error of `Read` comes after everything queued has been returned. -/
def ErrLate (p : PcbId) (before : List Event) (ev : Event) : Prop :=
  ∀ t, ev = .readErr t p →
    (select (Event.readOn p) before).flatten = (select (Event.queuedOn p) before).flatten

/-- The bytes returned on `p` are a prefix of the bytes delivered, and every error
came after all that was queued. -/
def Sys.ReadsAll (s : Sys) (p : PcbId) : Prop :=
  (select (Event.readOn p) s.trace).flatten <+:
      (select (Event.deliveredTo (s.pcbs p).conn) s.trace).flatten ∧
    Each (ErrLate p) s.trace

/-- `Read` does not find `err` set while chunks are queued. -/
def ReadOk (p : PcbId) (s : Sys) : Act → Prop
  | .go t => ∀ len, s.threads t = .read p len .test → (s.pcbs p).err = true →
      (s.chans (.own p)).buf = []
  | _ => True

variable {cfg : Config} {s t : Sys} {o : Outcomes} {p : PcbId} {r : Tid}

section

variable {trace trace' : List Event} {ev : Event} {ok : Prop}

theorem errLate_snoc (hev : ∀ t, ev ≠ .readErr t p := by nofun) :
    Each (ErrLate p) (trace ++ [ev]) ↔ Each (ErrLate p) trace :=
  each_snoc_of fun t hsame => absurd hsame (hev t)

theorem errLate_notify (event : Bool) (hev : ∀ t, ev ≠ .readErr t p := by nofun) :
    Each (ErrLate p) (trace ++ if event then [ev] else []) ↔ Each (ErrLate p) trace :=
  snoc_if (P := fun tr => Each (ErrLate p) tr ↔ _) event Iff.rfl (errLate_snoc hev)

end

/-- With an error `Read` returns all that was queued, exactly if the channel is empty. -/
theorem Chunks.errLate {c : Chan Bytes} {th : Thread} {pushing : List Bytes}
    {trace : List Event} {panic : Option Panic} (h : Chunks p c th pushing trace panic)
    (hpanic : panic = none) (hrec : th.received p = []) {u : Tid} :
    ErrLate p trace (.readErr u p) ↔ c.buf = [] := by
  have hall := h.queued hpanic
  rw [hrec, List.append_nil] at hall
  constructor
  · intro hlate
    have hlen := congrArg List.length (hlate u rfl)
    rw [hall, List.flatten_append, List.length_append] at hlen
    have hnone : c.buf.flatten = [] := List.length_eq_zero_iff.mp (by omega)
    refine List.eq_nil_iff_forall_not_mem.mpr ?_
    intro data hdata
    exact h.nonempty data hdata (List.flatten_eq_nil_iff.mp hnone data hdata)
  · intro hempty _ _
    rw [hall, hempty, List.append_nil]

theorem LoopStep.errLate_iff {pc : LoopPc} (h : LoopStep cfg s o pc t) :
    Each (ErrLate p) t.trace ↔ Each (ErrLate p) s.trace := by
  cases h with
  | credit _ => exact errLate_snoc
  | dropped _ => exact errLate_snoc
  | passed _ _ => exact errLate_snoc
  | sendFailed _ _ _ _ _ => exact errLate_snoc
  | sendTcp _ _ _ _ _ _ _ => exact Iff.trans errLate_snoc errLate_snoc
  | sendUdp _ _ _ => exact Iff.trans errLate_snoc errLate_snoc
  | sendUdpFailed _ _ _ => exact errLate_snoc
  | netif => exact errLate_snoc
  | push _ => exact Iff.trans errLate_snoc errLate_snoc
  | pushUdp _ => exact Iff.trans errLate_snoc errLate_snoc
  | close h =>
      cases h with
      | setErr => exact errLate_snoc
      | _ => exact Iff.rfl
  | closed => exact Iff.trans errLate_snoc (Iff.trans errLate_snoc (errLate_notify cfg.event))
  | _ => exact Iff.rfl

theorem CallbackStep.errLate_iff {cb : Callback} (h : CallbackStep cfg s o cb t) :
    Each (ErrLate p) t.trace ↔ Each (ErrLate p) s.trace := by
  cases h with
  | accept _ _ => exact Iff.trans errLate_snoc (Iff.trans (errLate_notify cfg.event) errLate_snoc)
  | recvClosed _ _ _ _ _ _ => exact Iff.trans errLate_snoc (Iff.trans errLate_snoc errLate_snoc)
  | recvEmpty _ _ _ _ _ _ => exact Iff.trans errLate_snoc errLate_snoc
  | recv _ _ _ _ _ _ _ => exact Iff.trans errLate_snoc errLate_snoc
  | fin _ _ _ _ _ => exact Iff.trans errLate_snoc errLate_snoc
  | err _ _ _ _ _ => exact Iff.trans errLate_snoc (Iff.trans errLate_snoc errLate_snoc)
  | sentMore _ _ _ _ _ _ _ => exact Iff.trans errLate_snoc errLate_snoc
  | sentIdle _ _ _ _ _ _ _ => exact errLate_snoc
  | sent _ _ _ _ _ _ _ _ => exact errLate_snoc
  | pollMore _ _ _ _ _ _ _ => exact errLate_snoc
  | udpNew _ _ => exact errLate_notify cfg.event
  | _ => exact Iff.rfl

/-- `Read` reports an error: before it looks at the channel, or after it found it closed
and empty. -/
theorem ReadStep.errLate_iff {th : Tid} {q : PcbId} {len : Nat} {pc : ReadPc}
    (hth : s.threads th = .read q len pc) (h : ReadStep s th q len pc t)
    (hpanic : s.panic = none) (halone : s.ReadAlone p r) (hs : s.InChunks p r) :
    Each (ErrLate p) t.trace ↔ Each (ErrLate p) s.trace ∧ ReadOk p s (.go th) := by
  have hok : (Thread.read q len pc).ReadBy p r th := hth ▸ halone.threads th
  have other : (pc = .test → (s.pcbs q).err = false) → ReadOk p s (.go th) := by
    intro hpc l hl herr
    rw [hth] at hl
    cases hl
    rw [hpc rfl] at herr
    cases herr
  have quiet : ∀ {tr : List Event}, (Each (ErrLate p) tr ↔ Each (ErrLate p) s.trace) →
      ReadOk p s (.go th) →
      (Each (ErrLate p) tr ↔ Each (ErrLate p) s.trace ∧ ReadOk p s (.go th)) :=
    fun htr hok => htr.trans (and_iff_left hok).symm
  -- the error is about `p` and the reader has nothing in its hands
  have late : q = p → (Thread.read q len pc).received p = [] →
      (ErrLate p s.trace (.readErr th p) ↔ (s.chans (.own p)).buf = []) := by
    intro hq hrec
    obtain rfl : th = r := by cases pc <;> first | exact hok hq | exact hok.1 hq
    exact hs.errLate hpanic (hth ▸ hrec)
  cases h with
  | closed herr =>
      by_cases hq : q = p
      · rw [each_snoc]
        subst hq
        refine and_congr_right fun _ => (late rfl rfl).trans ?_
        constructor
        · intro hempty _ _ _
          exact hempty
        · intro hok
          exact hok len hth herr
      · refine quiet (errLate_snoc ?_) ?_
        · rintro _ ⟨⟩
          exact hq rfl
        · intro l hl _
          rw [hth] at hl
          cases hl
          exact absurd rfl hq
  | errRet _ =>
      refine quiet ?_ (other nofun)
      by_cases hq : q = p
      · subst hq
        refine each_snoc_of ((late rfl rfl).mpr ?_)
        obtain rfl := hok rfl
        exact (hs.drained len hth).2
      · refine errLate_snoc ?_
        rintro _ ⟨⟩
        exact hq rfl
  | isOpen herr => exact quiet Iff.rfl (other fun _ => herr)
  | datagram _ _ _ _ => exact quiet errLate_snoc (other nofun)
  | nilRet _ => exact quiet errLate_snoc (other nofun)
  | credit _ => exact quiet errLate_snoc (other nofun)
  | _ => exact quiet Iff.rfl (other nofun)

theorem Step.errLate_iff {a : Act} (h : Step cfg s a t) (hpanic : s.panic = none)
    (halone : s.ReadAlone p r) (hs : s.InChunks p r) :
    Each (ErrLate p) t.trace ↔ Each (ErrLate p) s.trace ∧ ReadOk p s a := by
  have quiet : ∀ {tr : List Event} {ok : Prop}, ok →
      (Each (ErrLate p) tr ↔ Each (ErrLate p) s.trace) →
      (Each (ErrLate p) tr ↔ Each (ErrLate p) s.trace ∧ ok) :=
    fun hok htr => htr.trans (and_iff_left hok).symm
  have other : ∀ {th x}, s.threads th = x → (∀ len, x ≠ .read p len .test) →
      ReadOk p s (.go th) := by
    intro th x hth hx len hlen
    rw [hth] at hlen
    exact absurd hlen (hx len)
  cases h with
  | callClose _ _ => exact quiet trivial errLate_snoc
  | read hth h => exact h.errLate_iff hth hpanic halone hs
  | write hth h =>
      refine quiet (other hth nofun) ?_
      cases h with
      | empty _ => exact errLate_snoc
      | lock _ => exact errLate_snoc
      | enqueue _ => exact errLate_snoc
      | wait _ => exact errLate_snoc
      | post _ => exact errLate_snoc
      | ret => exact errLate_snoc
      | _ => exact Iff.rfl
  | close hth h =>
      refine quiet (other hth nofun) ?_
      cases h with
      | setErr => exact errLate_snoc
      | _ => exact Iff.rfl
  | closed hth => exact quiet (other hth nofun) Iff.rfl
  | closePost hth _ => exact quiet (other hth nofun) Iff.rfl
  | intercept hth h =>
      refine quiet (other hth nofun) ?_
      cases h <;> exact Iff.rfl
  | frame _ => exact quiet trivial errLate_snoc
  | takeClose _ _ _ => exact quiet trivial errLate_snoc
  | takeCloseUdp _ _ _ => exact quiet trivial errLate_snoc
  | loop _ h => exact quiet trivial h.errLate_iff
  | callback _ h => exact quiet trivial h.errLate_iff
  | _ => exact quiet trivial Iff.rfl

/-- A single reader of a connection that nobody closes or intercepts gets everything
before its first error, exactly if it never finds `err` set while chunks are queued. -/
theorem run_readsAll_iff {tr : List (Sys × Act)} (hrun : (bridge cfg).Run tr s)
    (hby : Machine.Meets (ReadBy p r) tr) (hp : Made s.nextPcb s.pcbs .tcp p) :
    s.ReadsAll p ↔ Machine.Meets (ReadOk p) tr := by
  have hprefix : (select (Event.readOn p) s.trace).flatten <+:
      (select (Event.deliveredTo (s.pcbs p).conn) s.trace).flatten := by
    have hreturned := (run_inChunks hrun hby).returned
    have hwithin := (run_inArrivals hrun hby).within hp
    exact List.IsPrefix.flatten (hreturned.trans ((List.prefix_append _ _).trans hwithin))
  rw [Sys.ReadsAll, and_iff_right hprefix]
  refine hrun.iff_meets (P := fun s => Each (ErrLate p) s.trace) hby
    (fun h hby => And.intro (reachable_inOrder h.reachable)
      (And.intro (run_readAlone h hby) (run_inChunks h hby))) (each_nil _) ?_
  intro s a t hs _ hstep
  exact (step_cases hs.1 hstep).errLate_iff (step_running hstep) hs.2.1 hs.2.2

namespace Schedule

/-- The peer of the connection 0 sends a byte, and the handler queues it. -/
def receive : List Act :=
  accept ++ [.callback (.recv 1 (some [9]) .ok) fine, .loop fine, .loop fine]

/-- The peer sends FIN, and the loop runs `go_tcp_close_h` and `cs_tcp_raw_close`. -/
def fin : List Act :=
  .callback (.recv 1 none .ok) fine :: List.replicate 6 (.loop fine)

end Schedule

/-- A reader that is in time gets the byte and then the error. -/
theorem run_readsAll_prompt : ∃ tr s, (bridge Schedule.config).Run tr s ∧ s.ReadsAll 0 ∧
    .readOk 0 0 [9] ∈ s.trace ∧ .readErr 0 0 ∈ s.trace := by
  obtain ⟨tr, s, hrun, hmeets, htest⟩ := Machine.exists_run_of_exec (bridge Schedule.config)
    (fun s a => decide (ReadBy 0 0 s a ∧
      ((s.pcbs 0).err = true → (s.chans (.own 0)).buf = [])))
    (Schedule.receive ++ [.call 0 (.read 0 1518), .go 0, .go 0, .go 0, .go 0, .go 0] ++
      Schedule.fin ++ [.call 0 (.read 0 1518), .go 0, .go 0])
    (fun s => 0 < s.nextPcb ∧ (s.pcbs 0).type = .tcp ∧ .readOk 0 0 [9] ∈ s.trace ∧
      .readErr 0 0 ∈ s.trace) (by decide)
  obtain ⟨hlt, htype, hread, herr⟩ := of_decide_eq_true htest
  have hby : Machine.Meets (ReadBy 0 0) tr := hmeets.mono fun _ _ h => (of_decide_eq_true h).1
  have hok : Machine.Meets (ReadOk 0) tr := by
    refine hmeets.mono ?_
    intro s a h
    cases a with
    | go t => exact fun _ _ => (of_decide_eq_true h).2
    | _ => trivial
  exact ⟨tr, s, hrun, (run_readsAll_iff hrun hby ⟨hlt, htype⟩).mpr hok, hread, herr⟩

/-- The peer sends a byte and FIN before the first `Read`, which reports an error. -/
theorem not_readsAll_late : ∃ tr s, (bridge Schedule.config).Run tr s ∧
    Machine.Meets (ReadBy 0 0) tr ∧ Made s.nextPcb s.pcbs .tcp 0 ∧ ¬s.ReadsAll 0 := by
  obtain ⟨tr, s, hrun, hmeets, htest⟩ := Machine.exists_run_of_exec (bridge Schedule.config)
    (fun s a => decide (ReadBy 0 0 s a))
    (Schedule.receive ++ Schedule.fin ++ [.call 0 (.read 0 1518), .go 0, .go 0])
    (fun s => 0 < s.nextPcb ∧ (s.pcbs 0).type = .tcp ∧
      s.trace = s.trace.dropLast ++ [.readErr 0 0] ∧
      select (Event.readOn 0) s.trace.dropLast = [] ∧
      select (Event.queuedOn 0) s.trace.dropLast = [[9]]) (by decide)
  obtain ⟨hlt, htype, htrace, hread, hqueued⟩ := of_decide_eq_true htest
  refine ⟨tr, s, hrun, hmeets.mono fun _ _ => of_decide_eq_true, ⟨hlt, htype⟩, ?_⟩
  rintro ⟨_, hlate⟩
  have := hlate _ _ _ htrace 0 rfl
  rw [hread, hqueued] at this
  cases this

end LwipCs
