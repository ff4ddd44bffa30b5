import LwipCs.Bridge.OutputWithin

/-!
# The echo program

`OnAccept` of the echo program starts a goroutine that runs `io.Copy(pcb, pcb)`: it reads
a chunk into a buffer of 32 KiB and writes it back, until a `Read` or a `Write` returns an
error. The goroutine of a PCB is given the number of the PCB.
-/

namespace LwipCs

namespace Echo

open Interleave

/-- Where `io.Copy` stands: before a call of a method, or in it. -/
inductive CopyPc
  | off
  | read
  | reading
  | write (data : Bytes)
  | writing (data : Bytes)
  | done
  deriving DecidableEq, Repr

/-- The size of the buffer that `io.Copy` makes. -/
def copySize : Nat := 32768

/-- The call that `io.Copy` makes next. -/
def CopyPc.next (p : PcbId) : CopyPc → Option Call
  | .read => some (.read p copySize)
  | .write data => some (.write p data)
  | _ => none

/-- The place of `io.Copy` in the call it makes. -/
def CopyPc.called : CopyPc → CopyPc
  | .read => .reading
  | .write data => .writing data
  | pc => pc

/-- The bridge with the goroutines of the echo program. -/
structure EchoSys where
  sys : Sys
  copies : PcbId → CopyPc

/-- What `io.Copy` does when the call its goroutine is about to leave returns. `Read` returns
bytes or an error, never both; after neither `io.Copy` reads again. -/
def returned (s : Sys) (p : PcbId) : CopyPc :=
  match s.threads p with
  | .read _ _ (.credit data) => .write data
  | .read _ _ (.recv r) =>
      match (s.chans r).recv with
      | .done (some data, _) => .write data
      | _ => .done
  | .read q _ .errRet | .write q _ .ret => if (s.pcbs q).err then .done else .read
  | _ => .done

namespace EchoSys

/-- A step of the bridge in which goroutines call what `io.Copy` calls. `OnAccept` starts the
goroutine of a PCB just made. -/
def step (cfg : Config) (u : EchoSys) (a : Act) : Option EchoSys :=
  match a with
  | .call t m =>
      if (u.copies t).next t = some m then
        (LwipCs.step cfg u.sys a).map fun s =>
          ⟨s, Function.update u.copies t (u.copies t).called⟩
      else none
  | .go t =>
      (LwipCs.step cfg u.sys a).map fun s =>
        ⟨s, if s.threads t = .idle then Function.update u.copies t (returned u.sys t)
          else u.copies⟩
  | _ =>
      (LwipCs.step cfg u.sys a).map fun s =>
        ⟨s, if cfg.event ∧ u.sys.nextPcb < s.nextPcb then
            Function.update u.copies u.sys.nextPcb .read
          else u.copies⟩

end EchoSys

/-- The echo program under a configuration. -/
def echo (cfg : Config) : Machine EchoSys Act := ⟨⟨Sys.init cfg, fun _ => .off⟩, EchoSys.step cfg⟩

variable {cfg : Config} {u v : EchoSys} {a : Act} {p : PcbId}

/-! ### The echo program runs the bridge -/

theorem EchoSys.step_sys (h : EchoSys.step cfg u a = some v) :
    LwipCs.step cfg u.sys a = some v.sys := by
  unfold EchoSys.step at h
  split at h
  · split at h
    · obtain ⟨s, hs, rfl⟩ := Option.map_eq_some_iff.mp h
      exact hs
    · cases h
  · obtain ⟨s, hs, rfl⟩ := Option.map_eq_some_iff.mp h
    exact hs
  · obtain ⟨s, hs, rfl⟩ := Option.map_eq_some_iff.mp h
    exact hs

/-- A run of the echo program as a run of the bridge. -/
def bridged (tr : List (EchoSys × Act)) : List (Sys × Act) := tr.map fun x => (x.1.sys, x.2)

theorem run_bridged {tr : List (EchoSys × Act)} (hrun : (echo cfg).Run tr u) :
    (bridge cfg).Run (bridged tr) u.sys := by
  have start : EchoSys.sys (echo cfg).start = (bridge cfg).start := rfl
  exact hrun.project (g := id) start fun _ _ _ _ h => EchoSys.step_sys h

theorem reachable_bridged (h : (echo cfg).Reachable u) : (bridge cfg).Reachable u.sys := by
  obtain ⟨tr, hrun⟩ := h
  exact (run_bridged hrun).reachable

theorem meets_bridged {ok : Sys → Act → Prop} {tr : List (EchoSys × Act)} :
    Machine.Meets ok (bridged tr) ↔ Machine.Meets (fun u a => ok u.sys a) tr := by
  constructor
  · intro h x hx
    exact h (x.1.sys, x.2) (List.mem_map_of_mem hx)
  · intro h x hx
    obtain ⟨y, hy, rfl⟩ := List.mem_map.mp hx
    exact h y hy

/-- Only its own goroutine reads from a PCB, and nobody closes or intercepts it. -/
theorem EchoSys.step_readBy (h : EchoSys.step cfg u a = some v) : ReadBy p p u.sys a := by
  cases a with
  | call t m =>
      simp only [EchoSys.step] at h
      split at h
      · rename_i hnext
        cases hpc : u.copies t with
        | read =>
            rw [hpc] at hnext
            cases hnext
            exact id
        | write data =>
            rw [hpc] at hnext
            cases hnext
            trivial
        | _ =>
            rw [hpc] at hnext
            cases hnext
      · cases h
  | _ => trivial

theorem run_readBy {tr : List (EchoSys × Act)} (hrun : (echo cfg).Run tr u) :
    Machine.Meets (ReadBy p p) (bridged tr) := by
  rw [meets_bridged]
  induction hrun with
  | start => exact Machine.meets_nil _
  | step _ hstep ih => exact Machine.meets_snoc.mpr ⟨ih, EchoSys.step_readBy hstep⟩

end Echo

end LwipCs
