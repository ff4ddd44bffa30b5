import LwipCs.Bridge.Unchanged

/-!
# A connection with one reader

While nobody calls `Close` or `Intercept` on a PCB and one goroutine reads from it,
the channel made with the PCB is used by that goroutine and the loop only, whatever
happens on other PCBs.
-/

namespace LwipCs

open Interleave

/-- On `p` only `r` calls `Read`, and nobody calls `Close` or `Intercept`. -/
def ReadBy (p : PcbId) (r : Tid) (_ : Sys) : Act → Prop
  | .call t (.read q _) => q = p → t = r
  | .call _ (.close q) | .call _ (.intercept q _) => q ≠ p
  | _ => True

instance (p : PcbId) (r : Tid) (s : Sys) (a : Act) : Decidable (ReadBy p r s a) := by
  unfold ReadBy
  split <;> infer_instance

/-- A goroutine that is in `Read` of `p` is `r`, and it alone takes from the channel. -/
def Thread.ReadBy (p : PcbId) (r t : Tid) : Thread → Prop
  | .read q _ (.recv c) => (q = p → t = r) ∧ (c = .own p ↔ q = p)
  | .read q _ _ => q = p → t = r
  | .close q _ | .intercept q _ _ => q ≠ p
  | _ => True

/-- A receive handler of `p`, and of no other PCB, sends on the channel of `p`. -/
def LoopPc.FeedsOwn (p : PcbId) : LoopPc → Prop
  | .push q _ _ (some c) => c = .own p ↔ q = p
  | _ => True

/-- The channel of `p` is used through `p` only, by the loop and by `r`. -/
structure OneReader (p : PcbId) (r : Tid) (pcbs : PcbId → PCB) (threads : Tid → Thread)
    (loop : LoopPc) : Prop where
  inter : (pcbs p).recvInter = false
  own : ∀ q, (pcbs q).recvQueued = .own p ↔ q = p
  threads : ∀ t, (threads t).ReadBy p r t
  loop : loop.FeedsOwn p

/-- `OneReader` of a state of the system. -/
abbrev Sys.ReadAlone (s : Sys) (p : PcbId) (r : Tid) : Prop :=
  OneReader p r s.pcbs s.threads s.loop

namespace OneReader

variable {p : PcbId} {r : Tid} {pcbs : PcbId → PCB} {threads : Tid → Thread} {loop : LoopPc}

/-- A PCB changes, and if it is `p` not in the fields `Read` and `close` look at. -/
theorem change (h : OneReader p r pcbs threads loop) {q : PcbId} {x : PCB}
    (hinter : q = p → x.recvInter = (pcbs q).recvInter) (hown : x.recvQueued = .own p ↔ q = p) :
    OneReader p r (Function.update pcbs q x) threads loop := by
  refine { h with inter := ?_, own := ?_ }
  · by_cases hq : p = q
    · subst hq
      rw [Function.update_self, hinter rfl]
      exact h.inter
    · rw [Function.update_of_ne hq]
      exact h.inter
  · intro q'
    by_cases hq : q' = q
    · subst hq
      rw [Function.update_self]
      exact hown
    · rw [Function.update_of_ne hq]
      exact h.own q'

theorem setPcb (h : OneReader p r pcbs threads loop) {q : PcbId} {x : PCB}
    (hinter : x.recvInter = (pcbs q).recvInter) (hown : x.recvQueued = (pcbs q).recvQueued) :
    OneReader p r (Function.update pcbs q x) threads loop :=
  h.change (fun _ => hinter) (by rw [hown]; exact h.own q)

theorem newPcb (h : OneReader p r pcbs threads loop) {nextPcb : PcbId} {flow : Flow} :
    OneReader p r (Function.update pcbs nextPcb (newPCB nextPcb flow)) threads loop := by
  refine { h with inter := ?_, own := ?_ }
  · by_cases hp : p = nextPcb
    · subst hp
      rw [Function.update_self]
      rfl
    · rw [Function.update_of_ne hp]
      exact h.inter
  · intro q
    by_cases hq : q = nextPcb
    · subst hq
      rw [Function.update_self]
      exact ⟨fun h => RecvChan.own.inj h, fun h => congrArg RecvChan.own h⟩
    · rw [Function.update_of_ne hq]
      exact h.own q

theorem setThread (h : OneReader p r pcbs threads loop) {t : Tid} {th : Thread}
    (hth : th.ReadBy p r t) :
    OneReader p r pcbs (Function.update threads t th) loop := by
  refine { h with threads := ?_ }
  apply (Function.forall_update_iff threads fun u x => x.ReadBy p r u).mpr
  exact ⟨hth, fun u _ => h.threads u⟩

theorem goto (h : OneReader p r pcbs threads loop) {pc : LoopPc}
    (hpc : pc.FeedsOwn p) : OneReader p r pcbs threads pc :=
  { h with loop := hpc }

end OneReader

variable {cfg : Config} {s t : Sys} {o : Outcomes} {p : PcbId} {r : Tid}

theorem ReadStep.readAlone {th : Tid} {q : PcbId} {len : Nat} {pc : ReadPc}
    (hth : s.threads th = .read q len pc) (h : ReadStep s th q len pc t)
    (hs : s.ReadAlone p r) : t.ReadAlone p r := by
  have hok : (Thread.read q len pc).ReadBy p r th := hth ▸ hs.threads th
  cases h with
  | intercepted _ => exact hs
  | enter _ => exact hs.setThread hok
  | isOpen _ => exact hs.setThread hok
  | load => exact hs.setThread ⟨hok, hs.own q⟩
  | nothing _ _ => exact hs.setThread hok.1
  | tooSmall _ _ => exact hs
  | chunk _ _ _ _ => exact hs.setThread hok.1
  | _ => exact hs.setThread trivial

theorem WriteStep.readAlone {th : Tid} {q : PcbId} {w : WriteId} {pc : WritePc}
    (h : WriteStep s th q w pc t) (hs : s.ReadAlone p r) : t.ReadAlone p r := by
  cases h with
  | lock _ => exact .setThread (hs.setPcb (by rfl) (by rfl)) trivial
  | wait _ => exact .setThread (hs.setPcb (by rfl) (by rfl)) trivial
  | unlock => exact .setThread (hs.setPcb (by rfl) (by rfl)) trivial
  | _ => exact hs.setThread trivial

theorem CloseStep.readAlone {who : Actor} {q : PcbId} {pc : ClosePc} {next : Option ClosePc}
    (h : CloseStep s who q pc t next) (hs : s.ReadAlone p r) : t.ReadAlone p r := by
  cases h with
  | lock _ => exact hs.setPcb rfl rfl
  | setErr => exact hs.setPcb rfl rfl
  | closeWait _ _ => exact hs.setPcb rfl rfl
  | unlock => exact hs.setPcb rfl rfl
  | _ => exact hs

theorem InterceptStep.readAlone {th : Tid} {q : PcbId} {c : Nat} {pc : InterPc}
    (hth : s.threads th = .intercept q c pc) (h : InterceptStep s th q c pc t)
    (hs : s.ReadAlone p r) : t.ReadAlone p r := by
  have hq : q ≠ p := by
    have := hs.threads th
    rwa [hth] at this
  cases h with
  | lock _ => exact .setThread (hs.setPcb (by rfl) (by rfl)) hq
  | twice _ => exact .setThread (hs.setPcb (by rfl) (by rfl)) trivial
  | test _ => exact hs.setThread hq
  | set =>
      have hset := hs.change (x := { s.pcbs q with recvInter := true }) (fun hqp => absurd hqp hq)
        (hs.own q)
      exact hset.setThread hq
  | closeOld _ => exact hs.setThread hq
  | closedOld _ => exact hs
  | swap =>
      have hswap := hs.change (x := { s.pcbs q with recvQueued := .user c }) (fun _ => rfl)
        ⟨nofun, fun hqp => absurd hqp hq⟩
      exact hswap.setThread hq
  | unlock => exact .setThread (hs.setPcb (by rfl) (by rfl)) trivial

theorem LoopStep.readAlone {pc : LoopPc} (h : LoopStep cfg s o pc t)
    (hs : s.ReadAlone p r) : t.ReadAlone p r := by
  cases h with
  | sendEmpty _ => exact hs
  | udpSendEmpty _ => exact hs
  | sendFailed _ _ _ _ _ => exact .goto (hs.setPcb (by rfl) (by rfl)) trivial
  | sendTcp _ _ _ _ _ _ _ => exact .goto (hs.setPcb (by rfl) (by rfl)) trivial
  | target => exact hs.goto (hs.own _)
  | pushClosed _ => exact hs
  | doneClosed _ => exact hs
  | done _ => exact .goto (hs.setPcb (by rfl) (by rfl)) trivial
  | close hclose => exact .goto (hclose.readAlone hs) trivial
  | closed => exact .goto (hs.setPcb (by rfl) (by rfl)) trivial
  | _ => exact hs.goto trivial

theorem CallbackStep.readAlone {cb : Callback} (h : CallbackStep cfg s o cb t)
    (hs : s.ReadAlone p r) : t.ReadAlone p r := by
  cases h with
  | ignored => exact hs
  | accept _ _ => exact hs.newPcb
  | assertion => exact hs
  | recvEmpty _ _ _ _ _ _ => exact hs
  | sent _ _ _ _ _ _ _ _ => exact .goto (hs.setPcb (by rfl) (by rfl)) trivial
  | udpEmpty => exact hs
  | udpNew _ _ => exact .goto hs.newPcb trivial
  | _ => exact hs.goto trivial

theorem Step.readAlone {a : Act} (h : Step cfg s a t) (hs : s.ReadAlone p r)
    (hby : ReadBy p r s a) : t.ReadAlone p r := by
  cases h with
  | callRead _ _ => exact hs.setThread hby
  | callWrite _ _ => exact hs.setThread trivial
  | callClose _ _ => exact hs.setThread hby
  | callIntercept _ _ => exact hs.setThread hby
  | read hth h => exact h.readAlone hth hs
  | write _ h => exact h.readAlone hs
  | @close th q pc pc' s' hth h =>
      have hq : q ≠ p := by
        have := hs.threads th
        rwa [hth] at this
      exact .setThread (h.readAlone hs) hq
  | closed _ => exact .setThread (hs.setPcb (by rfl) (by rfl)) trivial
  | closePost _ _ => exact hs.setThread trivial
  | intercept hth h => exact h.readAlone hth hs
  | takeRecved _ _ => exact hs.goto trivial
  | takeSend _ _ => exact hs.goto trivial
  | takeInput _ _ => exact hs.goto trivial
  | loop _ h => exact h.readAlone hs
  | callback _ h => exact h.readAlone hs
  | _ => exact hs

theorem run_readAlone {tr : List (Sys × Act)} (hrun : (bridge cfg).Run tr s)
    (hby : Machine.Meets (ReadBy p r) tr) : s.ReadAlone p r := by
  refine hrun.invariant_under (I := fun s => s.ReadAlone p r) hby reachable_inOrder ?_ ?_
  · exact ⟨rfl, fun q => ⟨fun h => RecvChan.own.inj h, fun h => congrArg RecvChan.own h⟩,
      fun _ => trivial, trivial⟩
  · intro s a t hs _ halone hby hstep
    exact (step_cases hs hstep).readAlone halone hby

end LwipCs
