import LwipCs.Bridge.Kept
import LwipCs.Echo.Copy

/-!
# What was read is written

A chunk that `Read` returned is the next one to take `lck` in `Write`. Between the two calls
it is in the hands of `io.Copy`, and a `Write` that finds `err` set never takes the lock.
-/

namespace LwipCs

open Interleave

variable {cfg : Config} {s t : Sys} {a : Act} {p : PcbId}

namespace Echo

/-- A chunk fits the buffer of `io.Copy`. -/
def Fit (data : Bytes) : Prop := data ≠ [] ∧ data.length ≤ copySize

/-- The goroutine of `p` is in the call that `io.Copy` made, with its bytes. -/
def CopyPc.Stands (bufs : WriteId → Buffer) (p : PcbId) (th : Thread) : CopyPc → Prop
  | .reading => ∃ pc, th = .read p copySize pc ∧ ∀ data, pc = .credit data → Fit data
  | .write data => th = .idle ∧ Fit data
  | .writing data => ∃ w pc, th = .write p w pc ∧ (bufs w).data = data ∧ Fit data
  | _ => th = .idle

/-- Every chunk read is the next one written; the last may be in between, and a `Write` that
found `err` set gives it up. -/
def CopyPc.Owes (err : Bool) (th : Thread) (reads locks : List Bytes) : CopyPc → Prop
  | .off => reads = [] ∧ locks = []
  | .read | .reading => reads = locks
  | .write data => reads = locks ++ [data]
  | .writing data =>
      match th with
      | .write _ _ pc =>
          pc.locked = true ∧ reads = locks ∨
            (pc.locked = false ∨ pc = .ret ∧ err = true) ∧ reads = locks ++ [data]
      | _ => False
  | .done => err = true ∧ locks <+: reads

/-- The chunks that Writes on `p` took the lock for. -/
def lockedChunks (p : PcbId) (trace : List Event) : List Bytes :=
  (select (Event.lockedOn p) trace).map Prod.snd

theorem lockedChunks_snoc {trace : List Event} {ev : Event} (hev : ev.lockedOn p = none) :
    lockedChunks p (trace ++ [ev]) = lockedChunks p trace :=
  congrArg (List.map Prod.snd) (select_snoc_of_none hev trace)

/-- `io.Copy` on `p` and its goroutine agree. -/
structure Linked (p : PcbId) (u : EchoSys) : Prop where
  unmade : u.sys.nextPcb ≤ p → u.copies p = .off ∧ select (Event.readOn p) u.sys.trace = [] ∧
    lockedChunks p u.sys.trace = []
  stands : (u.copies p).Stands u.sys.bufs p (u.sys.threads p)
  fits : ∀ data ∈ select (Event.readOn p) u.sys.trace, Fit data
  owes : (u.sys.pcbs p).type = .tcp → (u.copies p).Owes (u.sys.pcbs p).err (u.sys.threads p)
    (select (Event.readOn p) u.sys.trace) (lockedChunks p u.sys.trace)

variable {u v : EchoSys} {th : Thread} {pc : CopyPc} {bufs : WriteId → Buffer}

/-- A goroutine that is not in a call is idle. -/
theorem CopyPc.Stands.idle {q : PcbId} {m : Call} (h : pc.Stands bufs p th)
    (hnext : pc.next q = some m) : th = .idle := by
  cases pc with
  | read => exact h
  | write data => exact h.1
  | _ => cases hnext

theorem CopyPc.Stands.data {bufs' : WriteId → Buffer} (h : pc.Stands bufs p th)
    (hdata : ∀ q w c, th = .write q w c → (bufs' w).data = (bufs w).data) :
    pc.Stands bufs' p th := by
  cases pc with
  | writing data =>
      obtain ⟨w, c, hth, hw, hfit⟩ := h
      exact ⟨w, c, hth, (hdata p w c hth).trans hw, hfit⟩
  | _ => exact h

theorem CopyPc.Owes.err {err err' : Bool} {reads locks : List Bytes}
    (h : pc.Owes err th reads locks) (herr : err = true → err' = true) :
    pc.Owes err' th reads locks := by
  cases pc with
  | writing data =>
      cases th with
      | write q w c =>
          refine h.imp_right (And.imp_left (Or.imp_right ?_))
          exact And.imp_right herr
      | _ => exact h
  | done => exact ⟨herr h.1, h.2⟩
  | _ => exact h

/-- The chunks and the goroutine of `p` stay as they are. -/
structure Keeps (p : PcbId) (s t : Sys) : Prop where
  thread : t.threads p = s.threads p
  reads : select (Event.readOn p) t.trace = select (Event.readOn p) s.trace
  locks : lockedChunks p t.trace = lockedChunks p s.trace
  data : ∀ q w c, s.threads p = .write q w c → (t.bufs w).data = (s.bufs w).data
  next : s.nextPcb ≤ t.nextPcb
  type : p < s.nextPcb → (t.pcbs p).type = (s.pcbs p).type
  err : p < s.nextPcb → (s.pcbs p).err = true → (t.pcbs p).err = true

/-- The goroutines of other PCBs, and the loop, leave `p` alone. -/
theorem keeps_of_step (h : Step cfg s a t) (hwrites : s.WritesOk) (hgo : a ≠ .go p)
    (hcall : ∀ m, a ≠ .call p m)
    (hother : ∀ th, th ≠ p → (∀ n pc, s.threads th ≠ .read p n pc) ∧
      ∀ w pc, s.threads th ≠ .write p w pc) : Keeps p s t := by
  have hne : ∀ {th}, a = .go th → th ≠ p := by
    rintro th rfl rfl
    exact hgo rfl
  refine ⟨h.thread_kept hgo hcall, ?_, ?_, ?_, h.nextPcb_le, ?_, h.err_stays⟩
  · exact h.reads_eq fun th n pc hth => (hother th (hne hth)).1 n pc
  · exact congrArg (List.map Prod.snd)
      (h.locks_eq fun th w pc hth => (hother th (hne hth)).2 w pc)
  · intro q w c hth
    exact h.data_eq (hwrites.lt p q w c hth) (hwrites.inUse p q w c hth)
  · intro hp
    exact congrArg Flow.type (h.flow_eq hp)

/-- A step that keeps a made PCB and the place of `io.Copy`. -/
theorem Linked.frame (h : Linked p u) (hkeeps : Keeps p u.sys v.sys) (hp : p < u.sys.nextPcb)
    (hcopies : v.copies p = u.copies p) : Linked p v := by
  refine ⟨?_, ?_, ?_, ?_⟩
  · intro hle
    exact absurd hp (Nat.not_lt.mpr (Nat.le_trans hkeeps.next hle))
  · rw [hcopies, hkeeps.thread]
    exact h.stands.data hkeeps.data
  · rw [hkeeps.reads]
    exact h.fits
  · rw [hcopies, hkeeps.thread, hkeeps.reads, hkeeps.locks, hkeeps.type hp]
    exact fun htype => (h.owes htype).err (hkeeps.err hp)

/-- Before its PCB is made `io.Copy` is off; then it may start. -/
theorem Linked.fresh (h : Linked p u) (hkeeps : Keeps p u.sys v.sys)
    (hp : u.sys.nextPcb ≤ p) (hcopies : v.copies p = u.copies p ∨
      v.copies p = .read ∧ p < v.sys.nextPcb) : Linked p v := by
  obtain ⟨hoff, hreads, hlocks⟩ := h.unmade hp
  have hidle : v.sys.threads p = .idle := by
    have hstands := h.stands
    rw [hoff] at hstands
    exact hkeeps.thread.trans hstands
  rw [← hkeeps.reads] at hreads
  rw [← hkeeps.locks] at hlocks
  obtain hsame | ⟨hread, hlt⟩ := hcopies
  · rw [hoff] at hsame
    refine ⟨fun _ => ⟨hsame, hreads, hlocks⟩, ?_, ?_, ?_⟩
    · rw [hsame]
      exact hidle
    · rw [hreads]
      nofun
    · rw [hsame]
      exact fun _ => ⟨hreads, hlocks⟩
  · refine ⟨fun hle => absurd hlt (Nat.not_lt.mpr hle), ?_, ?_, ?_⟩
    · rw [hread]
      exact hidle
    · rw [hreads]
      nofun
    · rw [hread]
      exact fun _ => hreads.trans hlocks.symm

theorem Linked.made (hp : p < v.sys.nextPcb) (hcopies : v.copies p = pc)
    (stands : pc.Stands v.sys.bufs p (v.sys.threads p))
    (fits : ∀ data ∈ select (Event.readOn p) v.sys.trace, Fit data)
    (owes : (v.sys.pcbs p).type = .tcp → pc.Owes (v.sys.pcbs p).err (v.sys.threads p)
      (select (Event.readOn p) v.sys.trace) (lockedChunks p v.sys.trace)) : Linked p v := by
  subst hcopies
  exact ⟨fun hle => absurd hp (Nat.not_lt.mpr hle), stands, fits, owes⟩

/-- `io.Copy` calls a method. -/
theorem Linked.call (h : Linked p u) {m : Call} (hnext : (u.copies p).next p = some m)
    (hstep : Step cfg u.sys (.call p m) v.sys)
    (hcopies : v.copies p = (u.copies p).called) : Linked p v := by
  have howes := h.owes
  have hstands := h.stands
  cases hpc : u.copies p with
  | read =>
      rw [hpc] at hnext hcopies howes
      cases hnext
      obtain ⟨sys, copies⟩ := v
      cases hstep with
      | callRead _ hlt =>
          refine ⟨fun hle => absurd hlt (Nat.not_lt.mpr hle), ?_, h.fits, ?_⟩
          · rw [hcopies]
            exact ⟨.inter, Function.update_self .., nofun⟩
          · rw [hcopies]
            exact howes
  | write data =>
      rw [hpc] at hnext hcopies howes hstands
      have hfit : Fit data := hstands.2
      cases hnext
      obtain ⟨sys, copies⟩ := v
      cases hstep with
      | callWrite _ hlt =>
          refine ⟨fun hle => absurd hlt (Nat.not_lt.mpr hle), ?_, h.fits, ?_⟩
          · rw [hcopies]
            have hbuf := Function.update_self u.sys.nextWrite (Buffer.mk data true) u.sys.bufs
            exact ⟨u.sys.nextWrite, .test, Function.update_self .., congrArg Buffer.data hbuf,
              hfit⟩
          · rw [hcopies]
            intro htype
            show CopyPc.Owes _ (Function.update u.sys.threads p _ p) _ _ (.writing data)
            rw [Function.update_self]
            exact Or.inr ⟨Or.inl rfl, howes htype⟩
  | _ =>
      rw [hpc] at hnext
      cases hnext

/-- One more chunk is read. -/
theorem Linked.fits_snoc (h : Linked p u) {q : Tid} {data : Bytes} (hdata : Fit data) :
    ∀ x ∈ select (Event.readOn p) (u.sys.trace ++ [.readOk q p data]), Fit x := by
  have hread : (Event.readOk q p data).readOn p = some data := if_pos rfl
  rw [select_snoc, hread]
  intro x hx
  obtain hx | hx := List.mem_append.mp hx
  · exact h.fits x hx
  · rwa [List.mem_singleton.mp hx]

/-- Nothing more is read. -/
theorem Linked.fits_kept (h : Linked p u) {ev : Event} (hev : ev.readOn p = none) :
    ∀ data ∈ select (Event.readOn p) (u.sys.trace ++ [ev]), Fit data := by
  rw [select_snoc_of_none hev]
  exact h.fits

/-- Where `io.Copy` stands after a step of its goroutine. -/
abbrev After (u v : EchoSys) (p : PcbId) : Prop :=
  v.copies p = if v.sys.threads p = .idle then returned u.sys p else u.copies p

/-- The call goes on. -/
theorem After.stays (h : After u v p) (hbusy : v.sys.threads p ≠ .idle) (hpc : u.copies p = pc) :
    v.copies p = pc := by
  rw [h, if_neg hbusy, hpc]

/-- The call returns. -/
theorem After.returns (h : After u v p) (hidle : v.sys.threads p = .idle)
    (hret : returned u.sys p = pc) : v.copies p = pc := by
  rw [h, if_pos hidle, hret]

/-- A step of `Read`. -/
theorem Linked.read {c : ReadPc} (h : Linked p u) (hpc : u.copies p = .reading)
    (hth : u.sys.threads p = .read p copySize c) (hfit : ∀ data, c = .credit data → Fit data)
    (hp : p < u.sys.nextPcb) (hstep : ReadStep u.sys p p copySize c v.sys)
    (hafter : After u v p) : Linked p v := by
  have howes : (u.sys.pcbs p).type = .tcp →
      select (Event.readOn p) u.sys.trace = lockedChunks p u.sys.trace := by
    have := h.owes
    rwa [hpc] at this
  obtain ⟨sys, copies⟩ := v
  have stays : ∀ {d}, sys.threads p = .read p copySize d → copies p = .reading :=
    fun hd => hafter.stays (by rw [hd]; nofun) hpc
  cases hstep with
  | intercepted _ => exact .made hp (stays hth) ⟨_, hth, hfit⟩ h.fits howes
  | tooSmall _ _ => exact .made hp (stays hth) ⟨_, hth, hfit⟩ h.fits howes
  | enter _ =>
      have hd := Function.update_self p (Thread.read p copySize .test) u.sys.threads
      exact .made hp (stays hd) ⟨_, hd, nofun⟩ h.fits howes
  | isOpen _ =>
      have hd := Function.update_self p (Thread.read p copySize .load) u.sys.threads
      exact .made hp (stays hd) ⟨_, hd, nofun⟩ h.fits howes
  | load =>
      have hd := Function.update_self p
        (Thread.read p copySize (.recv (u.sys.pcbs p).recvQueued)) u.sys.threads
      exact .made hp (stays hd) ⟨_, hd, nofun⟩ h.fits howes
  | nothing _ _ =>
      have hd := Function.update_self p (Thread.read p copySize .errRet) u.sys.threads
      exact .made hp (stays hd) ⟨_, hd, nofun⟩ h.fits howes
  | @chunk r ch data _ hdata hlen _ =>
      have hd := Function.update_self p (Thread.read p copySize (.credit data)) u.sys.threads
      refine .made hp (stays hd) ⟨_, hd, ?_⟩ h.fits howes
      rintro _ ⟨⟩
      exact ⟨hdata, hlen⟩
  | closed herr =>
      have hd := Function.update_self p Thread.idle u.sys.threads
      have hret : returned u.sys p = .done := by rw [returned, hth]
      refine .made hp (hafter.returns hd hret) hd (h.fits_kept rfl) fun htype => ⟨herr, ?_⟩
      rw [select_snoc_of_none rfl, lockedChunks_snoc rfl, howes htype]
  | @datagram r ch data hrecv hdata hlen hudp =>
      have hd := Function.update_self p Thread.idle u.sys.threads
      have hret : returned u.sys p = .write data := by rw [returned, hth]; simp only [hrecv]
      refine .made hp (hafter.returns hd hret) ⟨hd, hdata, hlen⟩ (h.fits_snoc ⟨hdata, hlen⟩)
        fun htype => ?_
      cases hudp.symm.trans htype
  | errRet herr =>
      have hd := Function.update_self p Thread.idle u.sys.threads
      have hret : returned u.sys p = .done := by rw [returned, hth]; exact if_pos herr
      refine .made hp (hafter.returns hd hret) hd (h.fits_kept rfl) fun htype => ⟨herr, ?_⟩
      rw [select_snoc_of_none rfl, lockedChunks_snoc rfl, howes htype]
  | nilRet herr =>
      have hd := Function.update_self p Thread.idle u.sys.threads
      have hret : returned u.sys p = .read := by
        rw [returned, hth]
        exact if_neg (by rw [herr]; nofun)
      refine .made hp (hafter.returns hd hret) hd (h.fits_kept rfl) fun htype => ?_
      rw [select_snoc_of_none rfl, lockedChunks_snoc rfl]
      exact howes htype
  | @credit data q _ =>
      have hd := Function.update_self p Thread.idle u.sys.threads
      have hret : returned u.sys p = .write data := by rw [returned, hth]
      have hdata := hfit data rfl
      refine .made hp (hafter.returns hd hret) ⟨hd, hdata⟩ (h.fits_snoc hdata) fun htype => ?_
      have hread : (Event.readOk p p data).readOn p = some data := if_pos rfl
      rw [select_snoc, hread, lockedChunks_snoc rfl, howes htype]
      rfl

section

variable {w : WriteId} {c : WritePc} {data : Bytes} {err : Bool} {reads locks : List Bytes}

/-- Before its lock a `Write` has the last chunk that was read. -/
theorem CopyPc.Owes.before (h : (CopyPc.writing data).Owes err (.write p w c) reads locks)
    (hc : c.locked = false) : reads = locks ++ [data] := by
  obtain ⟨hlocked, _⟩ | ⟨_, hreads⟩ := h
  · exact absurd (hc.symm.trans hlocked) nofun
  · exact hreads

/-- Past its lock it has none. -/
theorem CopyPc.Owes.inside (h : (CopyPc.writing data).Owes err (.write p w c) reads locks)
    (hc : c.locked = true) (hopen : c = .ret → err = false) : reads = locks := by
  obtain ⟨_, hreads⟩ | ⟨hout | ⟨hat, hset⟩, _⟩ := h
  · exact hreads
  · exact absurd (hc.symm.trans hout) nofun
  · exact absurd ((hopen hat).symm.trans hset) nofun

/-- `Write` took the lock for the chunks before its own, and maybe for its own. -/
theorem CopyPc.Owes.locks_isPrefix (h : (CopyPc.writing data).Owes err (.write p w c) reads locks) :
    locks <+: reads := by
  obtain ⟨_, hreads⟩ | ⟨_, hreads⟩ := h
  · rw [hreads]
  · rw [hreads]
    exact List.prefix_append _ _

/-- `io.Copy` stands in a `Write`. -/
theorem Linked.writing (hp : p < v.sys.nextPcb) (hcopies : v.copies p = .writing data)
    (hth : v.sys.threads p = .write p w c) (hdata : (v.sys.bufs w).data = data) (hfit : Fit data)
    (hfits : ∀ data ∈ select (Event.readOn p) v.sys.trace, Fit data)
    (howes : (v.sys.pcbs p).type = .tcp →
      c.locked = true ∧ select (Event.readOn p) v.sys.trace = lockedChunks p v.sys.trace ∨
        (c.locked = false ∨ c = .ret ∧ (v.sys.pcbs p).err = true) ∧
          select (Event.readOn p) v.sys.trace = lockedChunks p v.sys.trace ++ [data]) :
    Linked p v := by
  refine .made hp hcopies ⟨w, c, hth, hdata, hfit⟩ hfits ?_
  rw [hth]
  exact howes

/-- A `Write` returns to `io.Copy`. -/
theorem Linked.writeRet {sys : Sys} {copies : Tid → CopyPc} {ev : Event} (h : Linked p u)
    (hpc : u.copies p = .writing data) (hth : u.sys.threads p = .write p w .ret)
    (hp : p < u.sys.nextPcb) (hidle : sys.threads p = .idle) (hpcbs : sys.pcbs = u.sys.pcbs)
    (hnext : sys.nextPcb = u.sys.nextPcb) (htrace : sys.trace = u.sys.trace ++ [ev])
    (hread : ev.readOn p = none) (hlocked : ev.lockedOn p = none)
    (hafter : After u ⟨sys, copies⟩ p) : Linked p ⟨sys, copies⟩ := by
  have howes := h.owes
  rw [hpc, hth] at howes
  have hlt : p < sys.nextPcb := by rwa [hnext]
  have hfits : ∀ data ∈ select (Event.readOn p) sys.trace, Fit data := by
    rw [htrace]
    exact h.fits_kept hread
  cases herr : (u.sys.pcbs p).err with
  | true =>
      have hret : returned u.sys p = .done := by rw [returned, hth]; exact if_pos herr
      refine .made hlt (hafter.returns hidle hret) hidle hfits fun htype => ?_
      simp only [htrace, hpcbs, select_snoc_of_none hread, lockedChunks_snoc hlocked] at htype ⊢
      exact ⟨herr, (howes htype).locks_isPrefix⟩
  | false =>
      have hret : returned u.sys p = .read := by
        rw [returned, hth]
        exact if_neg (by rw [herr]; nofun)
      refine .made hlt (hafter.returns hidle hret) hidle hfits fun htype => ?_
      simp only [htrace, hpcbs, select_snoc_of_none hread, lockedChunks_snoc hlocked] at htype ⊢
      exact (howes htype).inside rfl fun _ => herr

/-- A step of `Write`. -/
theorem Linked.write (h : Linked p u) (hpc : u.copies p = .writing data)
    (hth : u.sys.threads p = .write p w c) (hdata : (u.sys.bufs w).data = data) (hfit : Fit data)
    (hp : p < u.sys.nextPcb) (hpost : c = .post → (u.sys.pcbs p).type = .udp)
    (hflow : (v.sys.pcbs p).type = (u.sys.pcbs p).type)
    (hstep : WriteStep u.sys p p w c v.sys) (hafter : After u v p) : Linked p v := by
  have howes := h.owes
  rw [hpc, hth, ← hflow] at howes
  obtain ⟨sys, copies⟩ := v
  have stays : ∀ {d}, sys.threads p = .write p w d → copies p = .writing data :=
    fun hd => hafter.stays (by rw [hd]; nofun) hpc
  have goes : ∀ d, Function.update u.sys.threads p (.write p w d) p = .write p w d :=
    fun d => Function.update_self p (.write p w d) u.sys.threads
  cases hstep with
  | empty hempty => exact absurd (hdata.symm.trans hempty) hfit.1
  | closed _ herr =>
      exact .writing hp (stays (goes _)) (goes .ret) hdata hfit h.fits
        fun htype => Or.inr ⟨Or.inr ⟨rfl, herr⟩, (howes htype).before rfl⟩
  | tcp _ _ _ =>
      exact .writing hp (stays (goes _)) (goes .lock) hdata hfit h.fits
        fun htype => Or.inr ⟨Or.inl rfl, (howes htype).before rfl⟩
  | udp _ _ hudp =>
      exact .writing hp (stays (goes _)) (goes .post) hdata hfit h.fits
        fun htype => absurd (hudp.symm.trans htype) nofun
  | lock _ =>
      refine .writing hp (stays (goes _)) (goes .enqueue) hdata hfit (h.fits_kept rfl)
        fun htype => Or.inl ⟨rfl, ?_⟩
      have hlocked : (Event.locked p w (u.sys.bufs w).data).lockedOn p =
          some (w, (u.sys.bufs w).data) := if_pos rfl
      rw [select_snoc_of_none rfl, lockedChunks, select_snoc, hlocked, hdata,
        (howes htype).before rfl, List.map_append]
      rfl
  | enqueue _ =>
      refine .writing hp (stays (goes _)) (goes .wait) hdata hfit (h.fits_kept rfl)
        fun htype => Or.inl ⟨rfl, ?_⟩
      rw [select_snoc_of_none rfl, lockedChunks_snoc rfl]
      exact (howes htype).inside rfl nofun
  | wait _ =>
      refine .writing hp (stays (goes _)) (goes .unlock) hdata hfit (h.fits_kept rfl)
        fun htype => Or.inl ⟨rfl, ?_⟩
      rw [select_snoc_of_none rfl, lockedChunks_snoc rfl]
      exact (howes htype).inside rfl nofun
  | unlock =>
      exact .writing hp (stays (goes _)) (goes .ret) hdata hfit h.fits
        fun htype => Or.inl ⟨rfl, (howes htype).inside rfl nofun⟩
  | post _ =>
      refine .writing hp (stays (goes _)) (goes .ret) hdata hfit (h.fits_kept rfl)
        fun htype => ?_
      exact absurd ((hpost rfl).symm.trans (hflow.symm.trans htype)) nofun
  | ret =>
      exact h.writeRet hpc hth hp (Function.update_self ..) rfl rfl rfl rfl rfl hafter

end

/-- A goroutine of another PCB is in no method of `p`. -/
theorem CopyPc.Stands.other {q : PcbId} (h : pc.Stands bufs q th) (hq : q ≠ p) :
    (∀ n c, th ≠ .read p n c) ∧ ∀ w c, th ≠ .write p w c := by
  cases pc with
  | reading =>
      obtain ⟨c, rfl, _⟩ := h
      exact ⟨fun n d heq => hq (by cases heq; rfl), nofun⟩
  | write data =>
      obtain rfl := h.1
      exact ⟨nofun, nofun⟩
  | writing data =>
      obtain ⟨w, c, rfl, _⟩ := h
      exact ⟨nofun, fun v d heq => hq (by cases heq; rfl)⟩
  | _ =>
      obtain rfl : th = .idle := h
      exact ⟨nofun, nofun⟩

/-- A step of the goroutine of `p`. -/
theorem Linked.go (h : Linked p u) (hknown : u.sys.InUse) (hstep : Step cfg u.sys (.go p) v.sys)
    (hafter : After u v p) : Linked p v := by
  have hok := hknown.threads p
  have hstands := h.stands
  have hflow : p < u.sys.nextPcb → (v.sys.pcbs p).type = (u.sys.pcbs p).type :=
    fun hp => congrArg Flow.type (hstep.flow_eq hp)
  cases hpc : u.copies p with
  | reading =>
      rw [hpc] at hstands
      obtain ⟨c, hth, hfit⟩ := hstands
      rw [hth] at hok
      have hp : p < u.sys.nextPcb := by
        cases c with
        | credit data => exact hok.1
        | _ => exact hok
      exact h.read hpc hth hfit hp (hstep.go_read hth) hafter
  | writing data =>
      rw [hpc] at hstands
      obtain ⟨w, c, hth, hdata, hfit⟩ := hstands
      rw [hth] at hok
      have hp : p < u.sys.nextPcb := by
        cases c with
        | test => exact hok
        | ret => exact hok
        | _ => exact hok.1
      refine h.write hpc hth hdata hfit hp ?_ (hflow hp) (hstep.go_write hth) hafter
      rintro rfl
      exact hok.2
  | write data =>
      rw [hpc] at hstands
      exact absurd hstands.1 hstep.go_busy
  | _ =>
      rw [hpc] at hstands
      exact absurd hstands hstep.go_busy

/-- Steps of the loop and the environment start at most the goroutine of a new PCB. -/
theorem EchoSys.step_other (h : EchoSys.step cfg u a = some v) (hgo : ∀ t, a ≠ .go t)
    (hcall : ∀ t m, a ≠ .call t m) :
    v.copies p = u.copies p ∨
      p = u.sys.nextPcb ∧ v.copies p = .read ∧ u.sys.nextPcb < v.sys.nextPcb := by
  unfold EchoSys.step at h
  split at h
  · exact absurd rfl (hcall _ _)
  · exact absurd rfl (hgo _)
  · obtain ⟨s, hs, rfl⟩ := Option.map_eq_some_iff.mp h
    simp only
    split
    · rename_i hnew
      by_cases hp : p = u.sys.nextPcb
      · subst hp
        exact Or.inr ⟨rfl, Function.update_self .., hnew.2⟩
      · exact Or.inl (Function.update_of_ne hp ..)
    · exact Or.inl rfl

/-- One step of the echo program. -/
theorem step_linked (hs : ∀ q, Linked q u) (hready : u.sys.OutputReady)
    (h : EchoSys.step cfg u a = some v) (p : PcbId) : Linked p v := by
  have hstep := step_cases hready.order (EchoSys.step_sys h)
  have keeps : a ≠ .go p → (∀ m, a ≠ .call p m) → Keeps p u.sys v.sys := fun hgo hcall =>
    keeps_of_step hstep hready.writes hgo hcall fun th hne => (hs th).stands.other hne
  have same : Keeps p u.sys v.sys → v.copies p = u.copies p → Linked p v := by
    intro hkeeps hcopies
    by_cases hp : p < u.sys.nextPcb
    · exact (hs p).frame hkeeps hp hcopies
    · exact (hs p).fresh hkeeps (Nat.le_of_not_lt hp) (Or.inl hcopies)
  cases a with
  | call t m =>
      simp only [EchoSys.step] at h
      split at h
      · rename_i hnext
        obtain ⟨s, _, rfl⟩ := Option.map_eq_some_iff.mp h
        by_cases ht : t = p
        · subst ht
          exact (hs t).call hnext hstep (Function.update_self ..)
        · refine same (keeps (by simp) fun m heq => ht (by cases heq; rfl)) ?_
          exact Function.update_of_ne (Ne.symm ht) ..
      · cases h
  | go t =>
      simp only [EchoSys.step] at h
      obtain ⟨s, _, rfl⟩ := Option.map_eq_some_iff.mp h
      by_cases ht : t = p
      · subst ht
        refine (hs t).go hready.order.known hstep ?_
        show (if _ then Function.update _ _ _ else _) t = _
        split
        · exact Function.update_self ..
        · rfl
      · refine same (keeps (fun heq => ht (by cases heq; rfl)) (by simp)) ?_
        show (if _ then Function.update _ _ _ else _) p = _
        split
        · exact Function.update_of_ne (Ne.symm ht) ..
        · rfl
  | _ =>
      have hkeeps := keeps (by simp) (by simp)
      obtain hcopies | ⟨rfl, hread, hlt⟩ := EchoSys.step_other (p := p) h (by simp) (by simp)
      · exact same hkeeps hcopies
      · exact (hs _).fresh hkeeps (Nat.le_refl _) (Or.inr ⟨hread, hlt⟩)

/-- On every PCB `io.Copy` writes what it reads. -/
theorem reachable_linked (h : (echo cfg).Reachable u) (p : PcbId) : Linked p u := by
  have hall : ∀ q, Linked q u := by
    refine h.invariant_of (J := fun u => u.sys.OutputReady) (I := fun u => ∀ q, Linked q u)
      (fun hu => reachable_outputReady (reachable_bridged hu)) ?_ ?_
    · exact fun q => ⟨fun _ => ⟨rfl, rfl, rfl⟩, rfl, nofun, fun _ => ⟨rfl, rfl⟩⟩
    · exact fun u a v hready _ hs hstep => step_linked hs hready hstep
  exact hall p

end Echo

end LwipCs
