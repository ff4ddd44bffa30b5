import LwipCs.Bridge.Queued

/-!
# From the reader to lwIP

A frame goes through `inputQueue` to the loop, through `inputQueue2` from the loop to
`go_input_h`, which lwIP's driver calls back at once, and from there in a pbuf to
`netif->input`. The frame posted in a round of the loop is taken in that round, on the
way out without a pbuf as well, so `inputQueue2` never holds two.
-/

namespace LwipCs

open Interleave

/-- The frames `go_cs_input` returned. -/
def Event.frameIn : Event → Option Bytes
  | .frameRead frame => some frame
  | _ => none

/-- The frames `cs_netif_input` passed to `netif->input`. -/
def Event.framePassed : Event → Option Bytes
  | .netifInput frame => some frame
  | _ => none

/-- The answer of `pbuf_alloc` to `go_input_h`, if the step is its. -/
def Sys.frameAlloc (s : Sys) : Act → Option Bool
  | .loop o =>
      match s.loop with
      | .netif => some o.alloc
      | _ => none
  | _ => none

/-- The frame the loop sends into `inputQueue2`, if the step is that. -/
def Sys.framePost (s : Sys) : Act → Option Bytes
  | .loop _ =>
      match s.loop with
      | .post frame => some frame
      | _ => none
  | _ => none

/-- What `pbuf_alloc` answered to `go_input_h` in a run, in order. -/
def frameAllocs (tr : List (Sys × Act)) : List Bool := tr.filterMap fun x => x.1.frameAlloc x.2

/-- The frames posted in a run, in order. -/
def framePosts (tr : List (Sys × Act)) : List Bytes := tr.filterMap fun x => x.1.framePost x.2

/-- The frames for which there was a pbuf. -/
def kept (handled : List Bytes) (allocs : List Bool) : List Bytes :=
  (handled.zip allocs).filterMap fun x => if x.2 then some x.1 else none

/-- The frame the loop has taken from `inputQueue`. -/
def LoopPc.frame : LoopPc → List Bytes
  | .post frame => [frame]
  | _ => []

/-- Places of the loop between `inputQueue` and `go_input_h`. -/
def LoopPc.atFrame : LoopPc → Bool
  | .post _ | .netif => true
  | _ => false

/-- Every frame read was handled, is on its way, or waits; and those handled were passed
on if there was a pbuf for them. -/
structure Frames (allocs : List Bool) (posts : List Bytes) (loop : LoopPc)
    (inputQueue inputQueue2 : Chan Bytes) (trace : List Event) : Prop where
  order : ∃ handled : List Bytes, handled.length = allocs.length ∧
    select Event.frameIn trace = handled ++ inputQueue2.buf ++ loop.frame ++ inputQueue.buf ∧
    select Event.framePassed trace = kept handled allocs
  whole : ∀ frame ∈ select Event.frameIn trace, 1 ≤ frame.length ∧ frame.length ≤ 1518
  isOpen : inputQueue2.closed = false ∧ inputQueue2.cap = queueCap
  empty : loop ≠ .netif → inputQueue2.buf = []
  posted : loop = .netif → ∃ frame, inputQueue2.buf = [frame] ∧ posts.getLast? = some frame

/-- `Frames` of the state a run leads to. -/
abbrev Sys.InFrames (tr : List (Sys × Act)) (s : Sys) : Prop :=
  Frames (frameAllocs tr) (framePosts tr) s.loop s.inputQueue s.inputQueue2 s.trace

section

variable {allocs : List Bool} {posts : List Bytes} {loop : LoopPc}
variable {inputQueue inputQueue2 q : Chan Bytes} {trace : List Event} {ev : Event}

theorem kept_snoc {handled : List Bytes} (h : handled.length = allocs.length) (frame : Bytes)
    (alloc : Bool) : kept (handled ++ [frame]) (allocs ++ [alloc]) =
      kept handled allocs ++ if alloc then [frame] else [] := by
  rw [kept, kept, List.zip_append h, List.filterMap_append]
  cases alloc <;> rfl

namespace Frames

/-- One more event that concerns no frame. -/
theorem emit (h : Frames allocs posts loop inputQueue inputQueue2 trace)
    (hin : ev.frameIn = none := by rfl) (hpassed : ev.framePassed = none := by rfl) :
    Frames allocs posts loop inputQueue inputQueue2 (trace ++ [ev]) := by
  refine { h with order := ?_, whole := ?_ }
  · rw [select_snoc_of_none hin, select_snoc_of_none hpassed]
    exact h.order
  · rw [select_snoc_of_none hin]
    exact h.whole

/-- `if Event != nil { Event.… }` -/
theorem notify (event : Bool) (h : Frames allocs posts loop inputQueue inputQueue2 trace)
    (hin : ev.frameIn = none := by rfl) (hpassed : ev.framePassed = none := by rfl) :
    Frames allocs posts loop inputQueue inputQueue2 (trace ++ if event then [ev] else []) :=
  snoc_if (P := Frames allocs posts loop inputQueue inputQueue2) event h (h.emit hin hpassed)

/-- The loop moves elsewhere. -/
theorem goto (h : Frames allocs posts loop inputQueue inputQueue2 trace) {pc : LoopPc}
    (hloop : loop.atFrame = false := by rfl) (hpc : pc.atFrame = false := by rfl) :
    Frames allocs posts pc inputQueue inputQueue2 trace := by
  have hframe : ∀ {l : LoopPc}, l.atFrame = false → l.frame = [] ∧ l ≠ .netif := by
    intro l hl
    cases l with
    | post => cases hl
    | netif => cases hl
    | _ => exact ⟨rfl, by simp⟩
  obtain ⟨hnone, hnetif⟩ := hframe hloop
  obtain ⟨hnone', hnetif'⟩ := hframe hpc
  refine ⟨?_, h.whole, h.isOpen, fun _ => h.empty hnetif, fun hpc => absurd hpc hnetif'⟩
  rw [hnone', ← hnone]
  exact h.order

/-- The reader posts a frame. -/
theorem read (h : Frames allocs posts loop inputQueue inputQueue2 trace) {frame : Bytes}
    (hsend : inputQueue.send frame = .done q) (hlen : 1 ≤ frame.length ∧ frame.length ≤ 1518) :
    Frames allocs posts loop q inputQueue2 (trace ++ [.frameRead frame]) := by
  obtain ⟨handled, hlength, hread, hpassed⟩ := h.order
  have hin : select Event.frameIn (trace ++ [.frameRead frame]) =
      select Event.frameIn trace ++ [frame] := select_snoc ..
  refine { h with order := ⟨handled, hlength, ?_, ?_⟩, whole := ?_ }
  · rw [hin, hread, (Chan.send_done hsend).2.2.1, List.append_assoc _ inputQueue.buf]
  · rw [select_snoc_of_none rfl]
    exact hpassed
  · rw [hin]
    intro x hx
    rcases List.mem_append.mp hx with hx | hx
    · exact h.whole x hx
    · rw [List.mem_singleton.mp hx]
      exact hlen

/-- The loop takes the next frame. -/
theorem take (h : Frames allocs posts .select inputQueue inputQueue2 trace) {frame : Bytes}
    (hrecv : inputQueue.recv = .done (some frame, q)) :
    Frames allocs posts (.post frame) q inputQueue2 trace := by
  obtain ⟨⟨handled, hlength, hread, hpassed⟩, hwhole, hopen, hempty, _⟩ := h
  refine ⟨⟨handled, hlength, ?_, hpassed⟩, hwhole, hopen, fun _ => hempty nofun, nofun⟩
  rw [hread, (Chan.recv_some hrecv).1]
  simp [LoopPc.frame]

/-- Its send into `inputQueue2` finds room. -/
theorem room (h : Frames allocs posts loop inputQueue inputQueue2 trace) (hloop : loop ≠ .netif)
    (frame : Bytes) : ∃ q, inputQueue2.send frame = .done q := by
  refine Chan.send_of_room h.isOpen.1 ?_
  rw [h.empty hloop, h.isOpen.2]
  exact Nat.zero_lt_succ _

/-- The loop posts its frame and enters the driver. -/
theorem post {frame : Bytes} (h : Frames allocs posts (.post frame) inputQueue inputQueue2 trace)
    (hsend : inputQueue2.send frame = .done q) :
    Frames allocs (posts ++ [frame]) .netif inputQueue q trace := by
  obtain ⟨⟨handled, hlength, hread, hpassed⟩, hwhole, ⟨_, hcap⟩, hempty, _⟩ := h
  obtain ⟨_, _, hbuf, hcap', hopen'⟩ := Chan.send_done hsend
  rw [hempty nofun] at hread hbuf
  refine ⟨⟨handled, hlength, ?_, hpassed⟩, hwhole, ⟨hopen', hcap'.trans hcap⟩,
    fun h => absurd rfl h, fun _ => ⟨frame, hbuf, List.getLast?_concat⟩⟩
  rw [hread, hbuf]
  simp [LoopPc.frame]

/-- `go_input_h` takes it, and passes it on if there is a pbuf. -/
theorem input (h : Frames allocs posts .netif inputQueue inputQueue2 trace) {frame : Bytes}
    (hrecv : inputQueue2.recv = .done (some frame, q)) (alloc : Bool) :
    Frames (allocs ++ [alloc]) posts .lwip inputQueue q
      (trace ++ if alloc then [.netifInput frame] else []) := by
  obtain ⟨⟨handled, hlength, hread, hpassed⟩, hwhole, ⟨hopen, hcap⟩, _, hposted⟩ := h
  obtain ⟨hbuf, hcap', hopen'⟩ := Chan.recv_some hrecv
  have hrest : q.buf = [] := by
    obtain ⟨posted, hsame, _⟩ := hposted rfl
    rw [hbuf] at hsame
    exact (List.cons.inj hsame).2
  have hin : select Event.frameIn (trace ++ if alloc then [.netifInput frame] else []) =
      select Event.frameIn trace := by
    cases alloc <;> simp [Event.frameIn]
  have hout : select Event.framePassed (trace ++ if alloc then [.netifInput frame] else []) =
      select Event.framePassed trace ++ if alloc then [frame] else [] := by
    cases alloc <;> simp [Event.framePassed]
  refine ⟨⟨handled ++ [frame], ?_, ?_, ?_⟩, ?_, ⟨hopen'.trans hopen, hcap'.trans hcap⟩,
    fun _ => hrest, nofun⟩
  · rw [List.length_append, List.length_append, hlength]
    rfl
  · rw [hin, hread, hbuf, hrest]
    simp [LoopPc.frame]
  · rw [hout, hpassed, kept_snoc hlength]
  · rw [hin]
    exact hwhole

end Frames

end

variable {cfg : Config} {s t : Sys} {o : Outcomes} {allocs : List Bool} {posts : List Bytes}

/-- A goroutine does not handle frames. -/
theorem LoopKept.frames (h : LoopKept Event.ofGoroutine s t)
    (hs : Frames allocs posts s.loop s.inputQueue s.inputQueue2 s.trace) :
    Frames allocs posts t.loop t.inputQueue t.inputQueue2 t.trace := by
  rw [h.loop, h.inputQueue, h.inputQueue2]
  refine h.trace.ind hs fun tr ev hev hs => hs.emit ?_ ?_
  all_goals cases ev <;> first | rfl | cases hev

theorem LoopStep.frames {pc : LoopPc} (hpc : s.loop = pc) (h : LoopStep cfg s o pc t)
    (hframe : pc.atFrame = false)
    (hs : Frames allocs posts s.loop s.inputQueue s.inputQueue2 s.trace) :
    Frames allocs posts t.loop t.inputQueue t.inputQueue2 t.trace := by
  have hs' : Frames allocs posts pc s.inputQueue s.inputQueue2 s.trace := hpc ▸ hs
  cases h with
  | creditClosed _ => exact hs'.goto
  | credit _ => exact .emit hs'.goto
  | dropped _ => exact .emit hs'.goto
  | passed _ _ => exact .emit hs'.goto
  | sendEmpty _ => exact hs
  | udpSendEmpty _ => exact hs
  | sendFailed _ _ _ _ _ => exact .emit hs'.goto
  | sendTcp _ _ _ _ _ _ _ => exact .emit (.emit hs'.goto)
  | sendUdp _ _ _ => exact .emit (.emit hs'.goto)
  | sendUdpFailed _ _ _ => exact .emit hs'.goto
  | post _ => cases hframe
  | netif => cases hframe
  | netifNone => cases hframe
  | leave => exact hs'.goto
  | target => exact hs'.goto
  | pushClosed _ => exact hs
  | push _ => exact .emit (.emit hs'.goto)
  | pushUdp _ => exact .emit (.emit hs'.goto)
  | doneClosed _ => exact hs
  | done _ => exact hs'.goto
  | close hclose =>
      have hkept := hclose.loopKept.widen
      refine (hkept.frames hs).goto ?_
      rw [hkept.loop, hpc]
      rfl
  | closed => exact .emit (.emit (.notify cfg.event hs'.goto))

theorem CallbackStep.frames {cb : Callback} (hloop : s.loop = .lwip)
    (h : CallbackStep cfg s o cb t)
    (hs : Frames allocs posts s.loop s.inputQueue s.inputQueue2 s.trace) :
    Frames allocs posts t.loop t.inputQueue t.inputQueue2 t.trace := by
  have hs' : Frames allocs posts .lwip s.inputQueue s.inputQueue2 s.trace := hloop ▸ hs
  cases h with
  | ignored => exact hs
  | accept _ _ => exact .emit (.notify cfg.event (.emit hs))
  | assertion => exact hs
  | recvClosed _ _ _ _ _ _ => exact .emit (.emit (.emit hs'))
  | recvEmpty _ _ _ _ _ _ => exact .emit (.emit hs)
  | recv _ _ _ _ _ _ _ => exact .emit (.emit hs'.goto)
  | fin _ _ _ _ _ => exact .emit (.emit hs'.goto)
  | err _ _ _ _ _ => exact .emit (.emit (.emit hs'.goto))
  | sentMore _ _ _ _ _ _ _ => exact .emit (.emit hs')
  | sentIdle _ _ _ _ _ _ _ => exact .emit hs'
  | sent _ _ _ _ _ _ _ _ => exact .emit hs'.goto
  | pollMore _ _ _ _ _ _ _ => exact .emit hs'
  | udpEmpty => exact hs
  | udpKnown _ _ => exact hs'.goto
  | udpNew _ _ => exact .notify cfg.event hs'.goto

/-- Steps outside the way of a frame. -/
theorem Step.frames {a : Act} (h : Step cfg s a t) (hread : ∀ frame, a ≠ .frame frame)
    (hframe : ∀ o, a = .loop o → s.loop.atFrame = false)
    (hs : Frames allocs posts s.loop s.inputQueue s.inputQueue2 s.trace) :
    Frames allocs posts t.loop t.inputQueue t.inputQueue2 t.trace := by
  by_cases ha : a.ofGoroutine = true
  · exact (h.loopKept ha).frames hs
  cases h with
  | frame _ => exact absurd rfl (hread _)
  | takeRecved hloop _ => exact hs.goto (by rw [hloop]; rfl)
  | takeClose _ _ _ => exact hs.emit
  | takeCloseUdp _ _ _ => exact hs.emit
  | takeSend hloop _ => exact hs.goto (by rw [hloop]; rfl)
  | takeInput hloop hrecv =>
      rw [hloop] at hs
      exact hs.take hrecv
  | loop hpc h => exact h.frames hpc (hpc ▸ hframe _ rfl) hs
  | callback hloop h => exact h.frames hloop hs
  | release _ _ _ => exact hs
  | _ => exact absurd rfl ha

/-- `go_input_h` on the frame that waits for it. -/
theorem goInputH_of_recv {b : UInt8} {rest : Bytes} {q : Chan Bytes}
    (h : s.inputQueue2.recv = .done (some (b :: rest), q)) :
    s.goInputH o = { s with
      inputQueue2 := q
      trace := s.trace ++ if o.alloc then [.netifInput (b :: rest)] else [] } := by
  rw [Sys.goInputH, h]
  cases o.alloc with
  | true => rfl
  | false => simp [Sys.setInputQueue2]

/-- A step that neither posts nor takes a frame. -/
theorem aside_inFrames {tr : List (Sys × Act)} {a : Act} (horder : s.InOrder)
    (hs : s.InFrames tr) (hstep : step cfg s a = some t) (hread : ∀ frame, a ≠ .frame frame)
    (hframe : ∀ o, a = .loop o → s.loop.atFrame = false) : t.InFrames (tr ++ [(s, a)]) := by
  have hnone : s.frameAlloc a = none ∧ s.framePost a = none := by
    cases a with
    | loop o =>
        have hloop := hframe o rfl
        simp only [Sys.frameAlloc, Sys.framePost]
        cases hpc : s.loop with
        | post | netif =>
            rw [hpc] at hloop
            cases hloop
        | _ => exact ⟨rfl, rfl⟩
    | _ => exact ⟨rfl, rfl⟩
  have hallocs : frameAllocs (tr ++ [(s, a)]) = frameAllocs tr :=
    select_snoc_of_none (f := fun x : Sys × Act => x.1.frameAlloc x.2) hnone.1 tr
  have hposts : framePosts (tr ++ [(s, a)]) = framePosts tr :=
    select_snoc_of_none (f := fun x : Sys × Act => x.1.framePost x.2) hnone.2 tr
  rw [Sys.InFrames, hallocs, hposts]
  exact (step_cases horder hstep).frames hread hframe hs

theorem read_inFrames {tr : List (Sys × Act)} {data : Bytes} (hs : s.InFrames tr)
    (hstep : step cfg s (.frame data) = some t) : t.InFrames (tr ++ [(s, .frame data)]) := by
  have hread : s.readFrame data = some t := by
    simpa [step, step_running hstep] using hstep
  simp only [Sys.readFrame] at hread
  split at hread
  · rename_i hlen
    split at hread
    · rename_i q hsend
      cases hread
      have hallocs : frameAllocs (tr ++ [(s, .frame data)]) = frameAllocs tr :=
        select_snoc_of_none rfl tr
      have hposts : framePosts (tr ++ [(s, .frame data)]) = framePosts tr :=
        select_snoc_of_none rfl tr
      rw [Sys.InFrames, hallocs, hposts]
      exact hs.read hsend hlen
    · cases hread
  · cases hread

theorem post_inFrames {tr : List (Sys × Act)} {frame : Bytes} (hloop : s.loop = .post frame)
    (hs : s.InFrames tr) (hstep : step cfg s (.loop o) = some t) :
    t.InFrames (tr ++ [(s, .loop o)]) := by
  have hallocs : frameAllocs (tr ++ [(s, .loop o)]) = frameAllocs tr :=
    select_snoc_of_none (by simp only [Sys.frameAlloc, hloop]) tr
  have hposts : framePosts (tr ++ [(s, .loop o)]) = framePosts tr ++ [frame] := by
    refine (select_snoc ..).trans ?_
    simp only [Sys.framePost, hloop, Option.toList_some]
    rfl
  have hpost := loopStep_of_step hstep
  simp only [Sys.loopStep, hloop] at hpost
  split at hpost
  · rename_i q hsend
    cases hpost
    rw [Sys.InFrames, hallocs, hposts]
    exact Frames.post (hloop ▸ hs) hsend
  · cases hpost

theorem input_inFrames {tr : List (Sys × Act)} (hloop : s.loop = .netif) (hs : s.InFrames tr)
    (hstep : step cfg s (.loop o) = some t) : t.InFrames (tr ++ [(s, .loop o)]) := by
  have hallocs : frameAllocs (tr ++ [(s, .loop o)]) = frameAllocs tr ++ [o.alloc] := by
    refine (select_snoc ..).trans ?_
    simp only [Sys.frameAlloc, hloop, Option.toList_some]
    rfl
  have hposts : framePosts (tr ++ [(s, .loop o)]) = framePosts tr :=
    select_snoc_of_none (by simp only [Sys.framePost, hloop]) tr
  obtain ⟨frame, hbuf, _⟩ := hs.posted hloop
  obtain ⟨q, hrecv, _⟩ := Chan.recv_of_cons hbuf
  -- a frame that was read is not empty
  have hframe : frame ≠ [] := by
    obtain ⟨handled, _, hread, _⟩ := hs.order
    have hmem : frame ∈ select Event.frameIn s.trace := by
      rw [hread, hbuf]
      simp
    exact List.ne_nil_of_length_pos (hs.whole frame hmem).1
  obtain ⟨b, rest, rfl⟩ := List.exists_cons_of_ne_nil hframe
  have hinput := loopStep_of_step hstep
  simp only [Sys.loopStep, hloop, goInputH_of_recv hrecv] at hinput
  cases hinput
  rw [Sys.InFrames, hallocs, hposts]
  exact Frames.input (hloop ▸ hs) hrecv o.alloc

theorem run_inFrames {tr : List (Sys × Act)} (hrun : (bridge cfg).Run tr s) : s.InFrames tr := by
  induction hrun with
  | start =>
      exact ⟨⟨[], rfl, rfl, rfl⟩, by simp [Sys.init, bridge], ⟨rfl, rfl⟩, fun _ => rfl, nofun⟩
  | @step tr s t a hrun hstep ih =>
      have horder := reachable_inOrder hrun.reachable
      have hstep : step cfg s a = some t := hstep
      cases a with
      | frame data => exact read_inFrames ih hstep
      | loop o =>
          cases hloop : s.loop with
          | post frame => exact post_inFrames hloop ih hstep
          | netif => exact input_inFrames hloop ih hstep
          | _ => exact aside_inFrames horder ih hstep nofun fun _ _ => by rw [hloop]; rfl
      | _ => exact aside_inFrames horder ih hstep nofun nofun

/-! ### The hand-over -/

/-- The frames of a run: those read are the handled ones, in order, then the one on its
way and those waiting; the handled ones were passed on, with their bytes, where
`pbuf_alloc` succeeded. -/
structure Sys.HandsOver (cfg : Config) (tr : List (Sys × Act)) (s : Sys) : Prop where
  order : ∃ handled : List Bytes, handled.length = (frameAllocs tr).length ∧
    select Event.frameIn s.trace =
      handled ++ s.inputQueue2.buf ++ s.loop.frame ++ s.inputQueue.buf ∧
    select Event.framePassed s.trace = kept handled (frameAllocs tr)
  /-- the pbuf `go_input_h` fills -/
  bytes : ∀ frame ∈ select Event.frameIn s.trace, chainBytes (charChain cfg.lwip frame) = frame
  empty : s.loop = .select → s.inputQueue2.buf = []
  room : ∀ frame, s.loop = .post frame → ∃ q, s.inputQueue2.send frame = .done q
  takes : s.loop = .netif → ∃ frame q, (framePosts tr).getLast? = some frame ∧
    s.inputQueue2.recv = .done (some frame, q) ∧ q.buf = []

/-- Frames reach lwIP in the order they were read, each once, unless there is no pbuf. -/
theorem run_handsOver {tr : List (Sys × Act)} (hrun : (bridge cfg).Run tr s) :
    s.HandsOver cfg tr := by
  have hs := run_inFrames hrun
  refine ⟨hs.order, ?_, ?_, ?_, ?_⟩
  · intro frame hframe
    have hlen := (hs.whole frame hframe).2
    rw [chainBytes_charChain, accepted_of_lt (by omega)]
  · intro hloop
    exact hs.empty (by rw [hloop]; nofun)
  · intro frame hloop
    exact hs.room (by rw [hloop]; nofun) frame
  · intro hloop
    obtain ⟨frame, hbuf, hlast⟩ := hs.posted hloop
    obtain ⟨q, hrecv, hrest, _⟩ := Chan.recv_of_cons hbuf
    exact ⟨frame, q, hlast, hrecv, hrest⟩

/-- Of two frames the first finds no pbuf, and the second is passed on. -/
theorem run_handsOver_two : ∃ tr s, (bridge Schedule.config).Run tr s ∧
    s.HandsOver Schedule.config tr ∧
    select Event.frameIn s.trace = [[1], [2, 3]] ∧
    select Event.framePassed s.trace = [[2, 3]] := by
  obtain ⟨tr, s, hrun, _, htest⟩ := Machine.exists_run_of_exec (bridge Schedule.config)
    (fun _ _ => true)
    [.frame [1], .frame [2, 3], .take .input Schedule.fine, .loop Schedule.fine,
      .loop { Schedule.fine with alloc := false }, .loop Schedule.fine,
      .take .input Schedule.fine, .loop Schedule.fine, .loop Schedule.fine]
    (fun s => select Event.frameIn s.trace = [[1], [2, 3]] ∧
      select Event.framePassed s.trace = [[2, 3]]) (by decide)
  obtain ⟨hread, hpassed⟩ := of_decide_eq_true htest
  exact ⟨tr, s, hrun, run_handsOver hrun, hread, hpassed⟩

end LwipCs
