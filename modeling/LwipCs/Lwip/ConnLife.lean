import LwipCs.Lwip.SendLoop

/-!
# The memory of a connection

The state object of a connection and the pbufs that pass through it, from accept to
`tcp_close`. Bytes come in by `cs_tcp_char_send`, or by `cs_tcp_recv` of the C echo program,
which appends what lwIP delivers to `es->p`. The walks of `pbuf_cat` and `pbuf_free` go pbuf
by pbuf, and an access to a freed pbuf has no successor.
-/

namespace LwipCs

open Interleave Memory

/-- Where the event loop stands in a call for the connection. -/
inductive ConnPc
  /-- between two calls, or in `cs_tcp_raw_send` -/
  | call
  /-- in `pbuf_cat`, at a pbuf of the first chain, with the second to append -/
  | cat (p t : Ptr)
  /-- in `pbuf_free` of a whole chain, called by `cs_tcp_raw_free` or for trash -/
  | free (p : Option Ptr) (last : Bool)
  deriving DecidableEq, Repr

/-- The pool and `es->p`, `es->state`, `none` once the object is freed, and whether
`tcp_close` was called. -/
structure ConnMem where
  mem : SendMem
  state : Option RawStates
  pc : ConnPc
  closed : Bool

/-- The callbacks of lwIP, the calls of `cs_tcp_char_send`, and the next statement. -/
inductive ConnAct
  | charSend (buf : Bytes) (alloc : Option (List Ptr)) (sndbuf : Nat) (writes : List ErrT)
  | recv (chain : List (Ptr × Bytes)) (sndbuf : Nat) (writes : List ErrT)
  | fin
  | err
  | sent (sndbuf : Nat) (writes : List ErrT)
  | poll (sndbuf : Nat) (writes : List ErrT)
  | go
  deriving DecidableEq, Repr

namespace ConnMem

/-- `cs_tcp_raw_close` up to the test of `es->p` in `cs_tcp_raw_free`. -/
def csTcpRawClose (s : ConnMem) : ConnMem := { s with pc := .free s.mem.p true }

/-- `cs_tcp_recv` of the echo program, with the chain in the pool. -/
def csTcpRecv (s : ConnMem) (t : Ptr) (sndbuf : Nat) (writes : List ErrT) : ConnMem :=
  match s.mem.p with
  | none => { s with mem := { s.mem with p := some t }.call sndbuf writes }
  | some p => { s with pc := .cat p t }

/-- `cs_tcp_raw_recv` with a chain that lwIP has just taken from the pool. -/
def csTcpRawRecv (s : ConnMem) (state : RawStates) (chain : List (Ptr × Bytes)) (sndbuf : Nat)
    (writes : List ErrT) : Option ConnMem :=
  match chain with
  | [] => none
  | (t, _) :: _ =>
      if (s.mem.took.map Prod.fst ++ chain.map Prod.fst).Nodup ∧
          ∀ a ∈ chain.map Prod.fst, s.mem.pbufs a = none then
        let mem := { s.mem with pbufs := put s.mem.pbufs chain }
        let taken := { mem with took := mem.took ++ chain }
        match state with
        | .accepted => some (({ s with mem := taken, state := some .received }).csTcpRecv t sndbuf
            writes)
        | .received => some (({ s with mem := taken }).csTcpRecv t sndbuf writes)
        | _ => some { s with mem := mem, pc := .free (some t) false }
      else none

/-- `cs_tcp_send` and `cs_tcp_raw_poll`. -/
def resume (s : ConnMem) (state : RawStates) (sndbuf : Nat) (writes : List ErrT) : ConnMem :=
  if s.mem.p ≠ none then { s with mem := s.mem.call sndbuf writes }
  else if state = .closing then s.csTcpRawClose
  else s

/-- One pbuf of the walk of `pbuf_cat`. -/
def cat (s : ConnMem) (p t : Ptr) : Option ConnMem :=
  (s.mem.pbufs p).map fun q =>
    match q.next with
    | some n => { s with pc := .cat n t }
    | none =>
        { s with
          mem := { s.mem with
            pbufs := Function.update s.mem.pbufs p (some { q with next := some t }) }
          pc := .call }

/-- One pbuf of the walk of `pbuf_free`; at its end, in `cs_tcp_raw_close`, `mem_free` and
`tcp_close`. -/
def free (s : ConnMem) (p : Option Ptr) (last : Bool) : Option ConnMem :=
  match p with
  | none => if last then some { s with state := none, pc := .call, closed := true }
      else some { s with pc := .call }
  | some a =>
      (s.mem.pbufs a).bind fun q =>
        match q.ref with
        | 0 => none
        | 1 =>
            some { s with
              mem := { s.mem with
                pbufs := Function.update s.mem.pbufs a none
                freed := s.mem.freed ++ [a] }
              pc := .free q.next last }
        | r + 2 =>
            some { s with
              mem := { s.mem with
                pbufs := Function.update s.mem.pbufs a (some { q with ref := r + 1 }) }
              pc := .free none last }

/-- The next statement of a call. -/
def go (s : ConnMem) : Option ConnMem :=
  match s.pc with
  | .call => s.mem.go.map fun mem => { s with mem := mem }
  | .cat p t => s.cat p t
  | .free p last => s.free p last

/-- Between two calls the loop enters one; in a call it goes on. A freed object gets none. -/
def step (lwip : Lwip) (s : ConnMem) (act : ConnAct) : Option ConnMem :=
  s.state.bind fun state =>
    match act with
    | .go => s.go
    | act =>
        if s.pc = .call ∧ s.mem.pc = .idle then
          match act with
          | .charSend buf alloc sndbuf writes =>
              (s.mem.charSend lwip buf alloc sndbuf writes).map fun mem => { s with mem := mem }
          | .recv chain sndbuf writes => s.csTcpRawRecv state chain sndbuf writes
          | .fin => some ({ s with state := some .closing }).csTcpRawClose
          | .err => some s.csTcpRawClose
          | .sent sndbuf writes => some (s.resume state sndbuf writes)
          | .poll sndbuf writes => some (s.resume state sndbuf writes)
          | .go => none
        else none

end ConnMem

/-- A connection just accepted, over a pool in which other pbufs may be in use. -/
def connMem (lwip : Lwip) (pool : Store Bytes) : Machine ConnMem ConnAct :=
  ⟨⟨⟨pool, none, 0, [], .idle, [], [], []⟩, some .accepted, .call, false⟩, ConnMem.step lwip⟩

/-- The bytes that a call takes for sending. -/
def ConnMem.takes : ConnMem × ConnAct → Option Bytes
  | (s, .charSend buf alloc sndbuf writes) =>
      SendMem.accepts (s.mem, .charSend buf alloc sndbuf writes)
  | (_, .recv chain _ _) => some (payloads chain)
  | _ => none

/-! ### The pool -/

/-- Outside the pbufs taken for the connection the pool is as it was; those were free in it,
and those given back are. -/
structure InPool (pool pbufs : Store Bytes) (took freed : List Ptr) : Prop where
  fresh : ∀ a ∈ took, pool a = none
  frame : ∀ a, a ∉ took → pbufs a = pool a
  gone : ∀ a ∈ freed, pbufs a = none

section

variable {pool pbufs pbufs' : Store Bytes} {took freed : List Ptr} {chain : List (Ptr × Bytes)}
variable {a : Ptr} {x : Option (Cell Bytes)} {c : Cell Bytes}

theorem InPool.update (h : InPool pool pbufs took freed) (ha : a ∈ took) (hc : pbufs a = some c) :
    InPool pool (Function.update pbufs a x) took freed := by
  refine ⟨h.fresh, ?_, ?_⟩
  · intro b hb
    have hne : b ≠ a := by
      rintro rfl
      exact hb ha
    rw [Function.update_of_ne hne, h.frame b hb]
  · intro b hb
    have hne : b ≠ a := by
      rintro rfl
      rw [h.gone b hb] at hc
      cases hc
    rw [Function.update_of_ne hne, h.gone b hb]

/-- A pbuf goes back to the pool. -/
theorem InPool.free (h : InPool pool pbufs took freed) (ha : a ∈ took) (hc : pbufs a = some c) :
    InPool pool (Function.update pbufs a none) took (freed ++ [a]) := by
  obtain ⟨hfresh, hframe, hgone⟩ := h.update (x := none) ha hc
  refine ⟨hfresh, hframe, fun b hb => ?_⟩
  obtain hb | hb := List.mem_append.mp hb
  · exact hgone b hb
  · rw [List.mem_singleton.mp hb, Function.update_self]

/-- A chain comes from the pool. -/
theorem InPool.take (h : InPool pool pbufs took freed) (hfreed : ∀ b ∈ freed, b ∈ took)
    (hnodup : (took ++ chain.map Prod.fst).Nodup)
    (hnone : ∀ b ∈ chain.map Prod.fst, pbufs b = none) :
    InPool pool (put pbufs chain) (took ++ chain.map Prod.fst) freed := by
  have apart : ∀ {b}, b ∈ took → b ∉ chain.map Prod.fst := fun hb hb' =>
    (List.nodup_append.mp hnodup).2.2 _ hb _ hb' rfl
  refine ⟨?_, ?_, ?_⟩
  · intro b hb
    obtain hb | hb := List.mem_append.mp hb
    · exact h.fresh b hb
    · rw [← h.frame b fun htook => apart htook hb]
      exact hnone b hb
  · intro b hb
    obtain ⟨htook, hchain⟩ := not_or.mp (mt List.mem_append.mpr hb)
    rw [put_of_notMem hchain, h.frame b htook]
  · intro b hb
    rw [put_of_notMem (apart (hfreed b hb)), h.gone b hb]

/-- When all that was taken has been given back, the pool is as it was. -/
theorem InPool.restored (h : InPool pool pbufs took took) : pbufs = pool := by
  funext a
  by_cases ha : a ∈ took
  · rw [h.gone a ha, h.fresh a ha]
  · exact h.frame a ha

end

namespace SendMem

variable {lwip : Lwip} {pool : Store Bytes} {s s' : SendMem} {rest : List (Ptr × Bytes)}

/-- `InPool` of the memory of the loop. -/
abbrev Within (pool : Store Bytes) (s : SendMem) : Prop :=
  InPool pool s.pbufs (s.took.map Prod.fst) s.freed

theorem Sound.mem_rest (h : s.Sound rest) {a : Ptr} (ha : a ∈ rest.map Prod.fst) :
    a ∈ s.took.map Prod.fst := by
  rw [h.took, List.map_append]
  exact List.mem_append_right _ ha

theorem Sound.mem_wrote (h : s.Sound rest) {a : Ptr} (ha : a ∈ s.wrote.map Prod.fst) :
    a ∈ s.took.map Prod.fst := by
  rw [h.took, List.map_append]
  exact List.mem_append_left _ ha

theorem Sound.mem_freed (h : s.Sound rest) {a : Ptr} (ha : a ∈ s.freed) :
    a ∈ s.took.map Prod.fst := h.mem_wrote (h.freed_prefix.subset ha)

/-- The loop uses the pbufs of the connection alone. -/
theorem go_within (h : s.Sound rest) (hin : s.Within pool) (hstep : s.go = some s') :
    s'.Within pool := by
  have hlayout := h.layout
  cases hpc : s.pc with
  | idle => simp [go, hpc] at hstep
  | test wrErr =>
      simp only [go, hpc, test] at hstep
      split at hstep
      · obtain ⟨q, _, rfl⟩ := Option.map_eq_some_iff.mp hstep
        split
        · split <;> exact hin
        · exact hin
      · cases hstep
        exact hin
  | next ptr =>
      simp only [Layout, hpc] at hlayout
      obtain ⟨⟨v, _, n, hcell, hrest⟩, _⟩ := hlayout
      simp only [go, hpc, next, hcell, Option.bind_some] at hstep
      cases n with
      | none =>
          cases hstep
          exact hin
      | some n =>
          obtain ⟨w, _, tail, rfl, hcell', _⟩ := hrest.of_some
          simp only [hcell', Option.map_some] at hstep
          cases hstep
          exact hin.update (h.mem_rest List.mem_cons_self) hcell'
  | free p =>
      cases p with
      | none =>
          simp only [go, hpc, free] at hstep
          cases hstep
          exact hin
      | some a =>
          simp only [Layout, hpc] at hlayout
          obtain ⟨hlinked, ⟨v, hcell, _, hfreed⟩ | ⟨hp, _⟩⟩ := hlayout
          · simp only [go, hpc, free, hcell, Option.bind_some] at hstep
            cases hstep
            exact hin.free (h.mem_wrote (by rw [← hfreed]; simp)) hcell
          · obtain ⟨v, _, tail, rfl, hcell, _⟩ := (hp ▸ hlinked).of_some
            simp only [go, hpc, free, hcell, Option.bind_some] at hstep
            cases hstep
            exact hin.update (h.mem_rest List.mem_cons_self) hcell

theorem charSend_within {buf : Bytes} {alloc : Option (List Ptr)} {sndbuf : Nat}
    {writes : List ErrT} (h : s.Sound rest) (hin : s.Within pool)
    (hstep : s.charSend lwip buf alloc sndbuf writes = some s') : s'.Within pool := by
  unfold charSend at hstep
  split at hstep
  · cases hstep
    exact hin
  · cases alloc with
    | none =>
        cases hstep
        exact hin
    | some addrs =>
        simp only at hstep
        split at hstep
        · rename_i hfresh
          cases hstep
          obtain ⟨hlen, hnodup, hnone⟩ := hfresh
          have haddrs : (addrs.zip ((charChain lwip buf).map Pbuf.payload)).map Prod.fst = addrs :=
            List.map_fst_zip (by rw [List.length_map, hlen])
          show InPool pool (put s.pbufs _) ((s.took ++ _).map Prod.fst) s.freed
          rw [List.map_append]
          exact hin.take (fun b hb => h.mem_freed hb) (by rwa [haddrs]) (by rwa [haddrs])
        · cases hstep

end SendMem

/-! ### The life of a connection -/

namespace ConnMem

/-- No FIN was handled. -/
def Open (s : ConnMem) : Prop := s.state = some .accepted ∨ s.state = some .received

/-- In `pbuf_cat` at `a`: the chain of `es->p` up to `a` and behind it, and the new one. -/
def Joins (s : ConnMem) (rest : List (Ptr × Bytes)) (a t : Ptr) (back : List (Ptr × Bytes)) :
    Prop :=
  ∃ front v chain, rest = front ++ (a, v) :: back ++ chain ∧
    Linked s.mem.pbufs 1 s.mem.p (front ++ (a, v) :: back) ∧ Linked s.mem.pbufs 1 (some t) chain

/-- In `pbuf_free` at the end: what is left of the chain. -/
def Frees (s : ConnMem) (rest : List (Ptr × Bytes)) (p : Option Ptr) (left : List (Ptr × Bytes)) :
    Prop :=
  ∃ gone, rest = gone ++ left ∧ s.mem.freed = s.mem.wrote.map Prod.fst ++ gone.map Prod.fst ∧
    Linked s.mem.pbufs 1 p left

/-- The chain of `es->p`, in use or on its way out. -/
def Layout (s : ConnMem) (rest : List (Ptr × Bytes)) : Prop :=
  match s.pc with
  | .call => s.state = none ∧ s.mem.freed = s.mem.took.map Prod.fst ∨ s.Open ∧ s.mem.Sound rest
  | .cat a t => s.Open ∧ s.mem.pc = .idle ∧ s.mem.freed = s.mem.wrote.map Prod.fst ∧
      ∃ back, s.Joins rest a t back
  | .free p last => last = true ∧ s.state ≠ none ∧ ∃ left, s.Frees rest p left

/-- What was taken is what was written and the rest, and the rest of the pool is as it was. -/
structure Sound (pool : Store Bytes) (s : ConnMem) (rest : List (Ptr × Bytes)) : Prop where
  layout : s.Layout rest
  took : s.mem.took = s.mem.wrote ++ rest
  nodup : (s.mem.took.map Prod.fst).Nodup
  within : s.mem.Within pool
  closed : s.closed = true ↔ s.state = none

variable {lwip : Lwip} {pool : Store Bytes} {s s' : ConnMem} {mem : SendMem}
variable {rest left back : List (Ptr × Bytes)} {a t : Ptr}

theorem Open.alive (h : s.Open) : s.state ≠ none := by
  obtain h | h := h <;> rw [h] <;> nofun

/-- Between two calls `es->p` is the chain of the rest. -/
theorem Sound.idle (h : Sound pool s rest) (hpc : s.pc = .call) (halive : s.state ≠ none) :
    s.Open ∧ s.mem.Sound rest := by
  have hlayout := h.layout
  simp only [Layout, hpc] at hlayout
  obtain ⟨hdead, _⟩ | hopen := hlayout
  · exact absurd hdead halive
  · exact hopen

/-- A step of the output loop, or a call of `cs_tcp_char_send`. -/
theorem Sound.setMem {rest' : List (Ptr × Bytes)} (h : Sound pool s rest) (hpc : s.pc = .call)
    (halive : s.state ≠ none) (hsound : mem.Sound rest') (hin : mem.Within pool) :
    Sound pool { s with mem := mem } rest' := by
  refine ⟨?_, hsound.took, hsound.nodup, hin, h.closed⟩
  show Layout { s with mem := mem } rest'
  simp only [Layout, hpc]
  exact Or.inr ⟨(h.idle hpc halive).1, hsound⟩

/-- `pbuf_cat` goes on to the next pbuf, or stores the second chain in the last. -/
theorem cat_progress (h : Sound pool s rest) (hpc : s.pc = .cat a t)
    (hjoins : s.Joins rest a t back) :
    ∃ s', s.cat a t = some s' ∧ Sound pool s' rest ∧ s'.mem.took = s.mem.took ∧
      (back = [] ∧ s'.pc = .call ∧ s'.mem.pc = .idle ∨
        ∃ x back', back = x :: back' ∧ s'.pc = .cat x.1 t ∧ s'.Joins rest x.1 t back') := by
  obtain ⟨hlayout, htook, hnodup, hin, hclosed⟩ := h
  simp only [Layout, hpc] at hlayout
  obtain ⟨hopen, hidle, hfreed, _⟩ := hlayout
  obtain ⟨front, v, chain, rfl, hchain, hnew⟩ := hjoins
  obtain ⟨r, next, hcell, hback⟩ := hchain.within
  simp only [cat, hcell, Option.map_some]
  cases next with
  | some n =>
      obtain ⟨w, _, back', rfl, _⟩ := hback.of_some
      have hjoins : Joins { s with pc := .cat n t } (front ++ (a, v) :: (n, w) :: back' ++ chain)
          n t back' := ⟨front ++ [(a, v)], w, chain, by simp, by simpa using hchain, hnew⟩
      refine ⟨_, rfl, ⟨?_, htook, hnodup, hin, hclosed⟩, rfl, Or.inr ⟨_, _, rfl, rfl, hjoins⟩⟩
      exact ⟨hopen, hidle, hfreed, back', hjoins⟩
  | none =>
      obtain rfl := hback.of_none
      have htook' : a ∈ s.mem.took.map Prod.fst := by
        rw [htook]
        simp
      have hrest : ((front ++ (a, v) :: chain).map Prod.fst).Nodup := by
        rw [htook, List.map_append] at hnodup
        simpa using (List.nodup_append.mp hnodup).2.1
      have hjoined := hchain.join hcell hnew hrest
      refine ⟨_, rfl, ⟨?_, htook, hnodup, hin.update htook' hcell, hclosed⟩, rfl,
        Or.inl ⟨rfl, rfl, hidle⟩⟩
      refine Or.inr ⟨hopen, ?_, htook, hnodup⟩
      show SendMem.Layout { s.mem with pbufs := _ } _
      simp only [SendMem.Layout, hidle]
      exact ⟨by simpa using hjoined, hfreed⟩

/-- `pbuf_free` gives the next pbuf back, or `mem_free` and `tcp_close` end the connection. -/
theorem free_progress {p : Option Ptr} (h : Sound pool s rest) (hpc : s.pc = .free p true)
    (hfrees : s.Frees rest p left) :
    ∃ s', s.free p true = some s' ∧ Sound pool s' rest ∧ s'.mem.took = s.mem.took ∧
      (left = [] ∧ s'.state = none ∧ s'.pc = .call ∨
        ∃ x left' p', left = x :: left' ∧ s'.state = s.state ∧ s'.pc = .free p' true ∧
          s'.Frees rest p' left') := by
  obtain ⟨hlayout, htook, hnodup, hin, hclosed⟩ := h
  simp only [Layout, hpc] at hlayout
  obtain ⟨_, halive, _⟩ := hlayout
  obtain ⟨gone, rfl, hfreed, hlinked⟩ := hfrees
  cases p with
  | none =>
      obtain rfl := hlinked.of_none
      refine ⟨_, rfl, ⟨Or.inl ⟨rfl, ?_⟩, htook, hnodup, hin, iff_of_true rfl rfl⟩, rfl,
        Or.inl ⟨rfl, rfl, rfl⟩⟩
      show s.mem.freed = s.mem.took.map Prod.fst
      rw [hfreed, htook, List.append_nil, List.map_append]
  | some a =>
      obtain ⟨v, next, left', rfl, hcell, hrest⟩ := hlinked.of_some
      have hmem : a ∈ s.mem.took.map Prod.fst := by
        rw [htook]
        simp
      simp only [free, hcell, Option.bind_some]
      have hfrees : Frees { s with
          mem := { s.mem with
            pbufs := Function.update s.mem.pbufs a none
            freed := s.mem.freed ++ [a] }
          pc := .free next true } (gone ++ (a, v) :: left') next left' := by
        refine ⟨gone ++ [(a, v)], by simp, ?_, hrest.update hlinked.notMem none⟩
        show s.mem.freed ++ [a] = _
        rw [hfreed]
        simp
      refine ⟨_, rfl, ⟨⟨rfl, halive, left', hfrees⟩, htook, hnodup, hin.free hmem hcell, hclosed⟩,
        rfl, Or.inr ⟨_, _, _, rfl, rfl, rfl, hfrees⟩⟩

variable {chain : List (Ptr × Bytes)} {sndbuf : Nat} {writes : List ErrT} {state : RawStates}

/-- A chain in the pool is appended to what `es->p` has. -/
theorem csTcpRecv_sound (hopen : s.Open) (hidle : s.mem.pc = .idle)
    (hrest : Linked s.mem.pbufs 1 s.mem.p rest) (hnew : Linked s.mem.pbufs 1 (some t) chain)
    (hfreed : s.mem.freed = s.mem.wrote.map Prod.fst)
    (htook : s.mem.took = s.mem.wrote ++ (rest ++ chain))
    (hnodup : (s.mem.took.map Prod.fst).Nodup) (hin : s.mem.Within pool)
    (hclosed : s.closed = true ↔ s.state = none) (hpc : s.pc = .call) :
    Sound pool (s.csTcpRecv t sndbuf writes) (rest ++ chain) ∧
      (s.csTcpRecv t sndbuf writes).mem.took = s.mem.took := by
  unfold csTcpRecv
  cases hp : s.mem.p with
  | none =>
      rw [hp] at hrest
      obtain rfl := hrest.of_none
      refine ⟨⟨?_, htook, hnodup, hin, hclosed⟩, rfl⟩
      show Layout { s with mem := _ } _
      simp only [Layout, hpc]
      exact Or.inr ⟨hopen, ⟨hnew, hfreed⟩, htook, hnodup⟩
  | some p =>
      rw [hp] at hrest
      obtain ⟨v, _, back, rfl, _⟩ := hrest.of_some
      refine ⟨⟨⟨hopen, hidle, hfreed, back, [], v, chain, rfl, ?_, hnew⟩, htook, hnodup, hin,
        hclosed⟩, rfl⟩
      show Linked s.mem.pbufs 1 s.mem.p _
      rw [hp]
      exact hrest

/-- lwIP delivers a chain. -/
theorem recv_sound (h : Sound pool s rest) (hpc : s.pc = .call) (hidle : s.mem.pc = .idle)
    (hstate : s.state = some state)
    (hstep : s.csTcpRawRecv state chain sndbuf writes = some s') :
    Sound pool s' (rest ++ chain) ∧ s'.mem.took = s.mem.took ++ chain := by
  obtain ⟨hopen, hsound⟩ := h.idle hpc (by rw [hstate]; nofun)
  have hclosed := h.closed
  rw [hstate] at hclosed
  obtain ⟨hrest, hfreed⟩ := hsound.settled (Or.inl hidle)
  unfold csTcpRawRecv at hstep
  split at hstep
  · cases hstep
  · rename_i t v tail
    split at hstep
    · rename_i hfresh
      obtain ⟨hnodup, hnone⟩ := hfresh
      have hin : InPool pool (put s.mem.pbufs ((t, v) :: tail))
          ((s.mem.took ++ (t, v) :: tail).map Prod.fst) s.mem.freed := by
        rw [List.map_append]
        exact h.within.take (fun b hb => hsound.mem_freed hb) hnodup hnone
      have hnew : Linked (put s.mem.pbufs ((t, v) :: tail)) 1 (some t) ((t, v) :: tail) :=
        linked_put (List.nodup_append.mp hnodup).2.1
      have hold : Linked (put s.mem.pbufs ((t, v) :: tail)) 1 s.mem.p rest :=
        hrest.put fun b hb hb' =>
          (List.nodup_append.mp hnodup).2.2 _ (hsound.mem_rest hb) _ hb' rfl
      have htook : s.mem.took ++ (t, v) :: tail = s.mem.wrote ++ (rest ++ (t, v) :: tail) := by
        rw [h.took, List.append_assoc]
      have hnodup : ((s.mem.took ++ (t, v) :: tail).map Prod.fst).Nodup := by
        rwa [List.map_append]
      obtain hat | hat := hopen
      · cases hstate.symm.trans hat
        cases hstep
        exact csTcpRecv_sound (Or.inr rfl) hidle hold hnew hfreed htook hnodup hin
          (iff_of_false (by simpa using hclosed) nofun) hpc
      · cases hstate.symm.trans hat
        cases hstep
        exact csTcpRecv_sound (Or.inr hstate) hidle hold hnew hfreed htook hnodup hin
          (iff_of_false (by simpa using hclosed) (by rw [hstate]; nofun)) hpc
    · cases hstep

/-- The FIN and the error callback start to free the chain. -/
theorem close_sound (h : Sound pool s rest) (hpc : s.pc = .call) (hidle : s.mem.pc = .idle)
    (halive : s.state ≠ none) (state : RawStates) :
    Sound pool s.csTcpRawClose rest ∧
      Sound pool ({ s with state := some state }).csTcpRawClose rest := by
  obtain ⟨hopen, hsound⟩ := h.idle hpc halive
  obtain ⟨hrest, hfreed⟩ := hsound.settled (Or.inl hidle)
  have hfrees : ∀ u : ConnMem, u.mem = s.mem → u.Frees rest s.mem.p rest := by
    rintro u hu
    exact ⟨[], rfl, by rw [hu]; simpa using hfreed, by rwa [hu]⟩
  have hopened : ¬s.closed = true := fun hclosed => halive (h.closed.mp hclosed)
  constructor
  · exact ⟨⟨rfl, halive, rest, hfrees _ rfl⟩, h.took, h.nodup, h.within,
      iff_of_false hopened halive⟩
  · exact ⟨⟨rfl, nofun, rest, hfrees _ rfl⟩, h.took, h.nodup, h.within, iff_of_false hopened nofun⟩

/-- The sent callback and the poll callback enter the loop, or find nothing to do. -/
theorem resume_sound (h : Sound pool s rest) (hpc : s.pc = .call) (hidle : s.mem.pc = .idle)
    (hstate : s.state = some state) :
    Sound pool (s.resume state sndbuf writes) rest ∧
      (s.resume state sndbuf writes).mem.took = s.mem.took := by
  have halive : s.state ≠ none := by
    rw [hstate]
    nofun
  obtain ⟨hopen, hsound⟩ := h.idle hpc halive
  have hclosing : state ≠ .closing := by
    rintro rfl
    obtain hat | hat := hopen <;> cases hstate.symm.trans hat
  unfold resume
  split
  · have hcalled : (s.mem.call sndbuf writes).Sound rest := by
      have hlayout := hsound.settled (Or.inl hidle)
      exact ⟨hlayout, hsound.took, hsound.nodup⟩
    exact ⟨h.setMem hpc halive hcalled h.within, rfl⟩
  · exact ⟨h, rfl⟩

theorem go_sound (h : Sound pool s rest) (halive : s.state ≠ none) (hstep : s.go = some s') :
    (∃ rest', Sound pool s' rest') ∧ s'.mem.took = s.mem.took := by
  have hlayout := h.layout
  cases hpc : s.pc with
  | call =>
      simp only [go, hpc] at hstep
      obtain ⟨mem, hmem, rfl⟩ := Option.map_eq_some_iff.mp hstep
      have hsound := (h.idle hpc halive).2
      have hbusy : s.mem.pc ≠ .idle := by
        intro hidle
        simp [SendMem.go, hidle] at hmem
      obtain ⟨mem', rest', hgo, hsound', _, htook⟩ := SendMem.go_progress hsound hbusy
      cases hmem.symm.trans hgo
      have hset := h.setMem hpc halive hsound' (SendMem.go_within hsound h.within hmem)
      rw [hpc] at hset
      exact ⟨⟨rest', hset⟩, htook⟩
  | cat a t =>
      simp only [Layout, hpc] at hlayout
      obtain ⟨_, _, _, back, hjoins⟩ := hlayout
      obtain ⟨u, hcat, hsound, htook, _⟩ := cat_progress h hpc hjoins
      simp only [go, hpc] at hstep
      cases hcat.symm.trans hstep
      exact ⟨⟨rest, hsound⟩, htook⟩
  | free p last =>
      simp only [Layout, hpc] at hlayout
      obtain ⟨rfl, _, left, hfrees⟩ := hlayout
      obtain ⟨u, hfree, hsound, htook, _⟩ := free_progress h hpc hfrees
      simp only [go, hpc] at hstep
      cases hfree.symm.trans hstep
      exact ⟨⟨rest, hsound⟩, htook⟩

theorem step_sound {act : ConnAct} (h : Sound pool s rest) (hstep : s.step lwip act = some s') :
    (∃ rest', Sound pool s' rest') ∧
      payloads s'.mem.took = payloads s.mem.took ++ (takes (s, act)).toList.flatten := by
  obtain ⟨state, hstate, hcall⟩ := Option.bind_eq_some_iff.mp hstep
  have halive : s.state ≠ none := by
    rw [hstate]
    nofun
  have between : ∀ {x : Option ConnMem}, (if s.pc = .call ∧ s.mem.pc = .idle then x else none) =
      some s' → s.pc = .call ∧ s.mem.pc = .idle ∧ x = some s' := by
    intro x hx
    split at hx
    · rename_i hat
      exact ⟨hat.1, hat.2, hx⟩
    · cases hx
  have same : ∀ {u : ConnMem}, u.mem.took = s.mem.took →
      payloads u.mem.took = payloads s.mem.took ++ List.flatten [] := by
    intro u hu
    rw [hu, List.flatten_nil, List.append_nil]
  cases act with
  | go =>
      obtain ⟨hsound, htook⟩ := go_sound h halive hcall
      exact ⟨hsound, same htook⟩
  | charSend buf alloc sndbuf writes =>
      obtain ⟨hpc, hidle, hcall⟩ := between hcall
      obtain ⟨mem, hmem, rfl⟩ := Option.map_eq_some_iff.mp hcall
      have hold := (h.idle hpc halive).2
      obtain ⟨⟨rest', hsound⟩, hbytes⟩ := SendMem.charSend_sound hold hidle hmem
      exact ⟨⟨rest', h.setMem hpc halive hsound (SendMem.charSend_within hold h.within hmem)⟩,
        hbytes⟩
  | recv chain sndbuf writes =>
      obtain ⟨hpc, hidle, hcall⟩ := between hcall
      obtain ⟨hsound, htook⟩ := recv_sound h hpc hidle hstate hcall
      refine ⟨⟨_, hsound⟩, ?_⟩
      simp [htook, payloads, takes]
  | fin =>
      obtain ⟨hpc, hidle, hcall⟩ := between hcall
      cases hcall
      exact ⟨⟨rest, (close_sound h hpc hidle halive .closing).2⟩, same rfl⟩
  | err =>
      obtain ⟨hpc, hidle, hcall⟩ := between hcall
      cases hcall
      exact ⟨⟨rest, (close_sound h hpc hidle halive .closing).1⟩, same rfl⟩
  | sent sndbuf writes =>
      obtain ⟨hpc, hidle, hcall⟩ := between hcall
      cases hcall
      obtain ⟨hsound, htook⟩ := resume_sound h hpc hidle hstate
      exact ⟨⟨rest, hsound⟩, same htook⟩
  | poll sndbuf writes =>
      obtain ⟨hpc, hidle, hcall⟩ := between hcall
      cases hcall
      obtain ⟨hsound, htook⟩ := resume_sound h hpc hidle hstate
      exact ⟨⟨rest, hsound⟩, same htook⟩

theorem run_sound {tr : List (ConnMem × ConnAct)} (hrun : (connMem lwip pool).Run tr s) :
    (∃ rest, Sound pool s rest) ∧ payloads s.mem.took = (select takes tr).flatten := by
  induction hrun with
  | start =>
      refine ⟨⟨[], ?_, rfl, List.nodup_nil, ⟨nofun, fun _ _ => rfl, nofun⟩,
        iff_of_false nofun nofun⟩, rfl⟩
      exact Or.inr ⟨Or.inl rfl, ⟨rfl, rfl⟩, rfl, List.nodup_nil⟩
  | step hrun hstep ih =>
      obtain ⟨⟨rest, hsound⟩, hbytes⟩ := ih
      obtain ⟨hsound', hmore⟩ := step_sound hsound hstep
      refine ⟨hsound', ?_⟩
      rw [hmore, hbytes, select_snoc, List.flatten_append]

/-! ### Calls return -/

/-- Perform the next statements. -/
def goes (s : ConnMem) : Nat → Option ConnMem
  | 0 => some s
  | n + 1 => (s.state.bind fun _ => s.go).bind fun t => t.goes n

/-- Between two calls, or after the last. -/
def Resting (s : ConnMem) : Prop := s.pc = .call ∧ (s.state ≠ none → s.mem.pc = .idle)

theorem goes_succ {n : Nat} {u : ConnMem} (halive : s.state ≠ none) (hgo : s.go = some u) :
    s.goes (n + 1) = u.goes n := by
  obtain ⟨state, hstate⟩ := Option.ne_none_iff_exists'.mp halive
  rw [goes, hstate, Option.bind_some, hgo, Option.bind_some]

/-- In the output loop the statements are those of `SendMem`. -/
theorem goes_call {n : Nat} (hpc : s.pc = .call) (halive : s.state ≠ none)
    (hgoes : s.mem.goes n = some mem) : s.goes n = some { s with mem := mem } := by
  induction n generalizing s with
  | zero =>
      cases hgoes
      rfl
  | succ n ih =>
      obtain ⟨mem', hstep, hrest⟩ := Option.bind_eq_some_iff.mp hgoes
      have hgo : s.go = some { s with mem := mem' } := by
        simp only [go, hpc, hstep, Option.map_some]
      rw [goes_succ halive hgo]
      exact ih hpc halive hrest

/-- The walk of `pbuf_cat` ends. -/
theorem cat_returns (h : Sound pool s rest) (hpc : s.pc = .cat a t)
    (hjoins : s.Joins rest a t back) :
    ∃ s', s.goes (back.length + 1) = some s' ∧ s'.Resting := by
  induction back generalizing s a with
  | nil =>
      have hlayout := h.layout
      simp only [Layout, hpc] at hlayout
      obtain ⟨s', hcat, _, _, ⟨_, hpc', hidle⟩ | ⟨_, _, hcons, _⟩⟩ := cat_progress h hpc hjoins
      · have hgo : s.go = some s' := by rw [go, hpc, ← hcat]
        exact ⟨s', goes_succ hlayout.1.alive hgo, hpc', fun _ => hidle⟩
      · cases hcons
  | cons x back ih =>
      have hlayout := h.layout
      simp only [Layout, hpc] at hlayout
      obtain ⟨u, hcat, hsound, _, ⟨hnil, _⟩ | ⟨y, back', hcons, hpc', hjoins'⟩⟩ :=
        cat_progress h hpc hjoins
      · cases hnil
      · cases hcons
        obtain ⟨s', hgoes, hrests⟩ := ih hsound hpc' hjoins'
        have hgo : s.go = some u := by rw [go, hpc, ← hcat]
        exact ⟨s', (goes_succ hlayout.1.alive hgo).trans hgoes, hrests⟩

/-- The walk of `pbuf_free` ends. -/
theorem free_returns {p : Option Ptr} (h : Sound pool s rest) (hpc : s.pc = .free p true)
    (hfrees : s.Frees rest p left) : ∃ s', s.goes (left.length + 1) = some s' ∧ s'.Resting := by
  have halive : s.state ≠ none := by
    have hlayout := h.layout
    simp only [Layout, hpc] at hlayout
    exact hlayout.2.1
  induction left generalizing s p with
  | nil =>
      obtain ⟨s', hfree, _, _, ⟨_, hdead, hpc'⟩ | ⟨_, _, _, hcons, _⟩⟩ := free_progress h hpc hfrees
      · have hgo : s.go = some s' := by rw [go, hpc, ← hfree]
        exact ⟨s', goes_succ halive hgo, hpc', fun hne => absurd hdead hne⟩
      · cases hcons
  | cons x left ih =>
      obtain ⟨u, hfree, hsound, _, ⟨hnil, _⟩ | ⟨y, left', p', hcons, hstate, hpc', hfrees'⟩⟩ :=
        free_progress h hpc hfrees
      · cases hnil
      · cases hcons
        obtain ⟨s', hgoes, hrests⟩ := ih hsound hpc' hfrees' (by rwa [hstate])
        have hgo : s.go = some u := by rw [go, hpc, ← hfree]
        exact ⟨s', (goes_succ halive hgo).trans hgoes, hrests⟩

/-- Every call returns; the number of its statements is linear in the chain. -/
theorem call_returns (h : Sound pool s rest) :
    ∃ n s', n ≤ 5 * rest.length + 6 ∧ s.goes n = some s' ∧ s'.Resting := by
  have hlayout := h.layout
  cases hpc : s.pc with
  | call =>
      by_cases halive : s.state = none
      · exact ⟨0, s, Nat.zero_le _, rfl, hpc, fun hne => absurd halive hne⟩
      · obtain ⟨n, mem, _, hn, hgoes, hidle, _⟩ := SendMem.goes_returns (h.idle hpc halive).2
        exact ⟨n, _, Nat.le_trans hn (s.mem.budget_le rest), goes_call hpc halive hgoes, hpc,
          fun _ => hidle⟩
  | cat a t =>
      simp only [Layout, hpc] at hlayout
      obtain ⟨_, _, _, back, hjoins⟩ := hlayout
      obtain ⟨s', hgoes, hrests⟩ := cat_returns h hpc hjoins
      refine ⟨back.length + 1, s', ?_, hgoes, hrests⟩
      obtain ⟨front, v, chain, rfl, _⟩ := hjoins
      simp only [List.length_append, List.length_cons]
      omega
  | free p last =>
      simp only [Layout, hpc] at hlayout
      obtain ⟨rfl, _, left, hfrees⟩ := hlayout
      obtain ⟨s', hgoes, hrests⟩ := free_returns h hpc hfrees
      refine ⟨left.length + 1, s', ?_, hgoes, hrests⟩
      obtain ⟨gone, rfl, _⟩ := hfrees
      simp only [List.length_append]
      omega

/-! ### Results -/

/-- Over the life of a connection the bytes taken are handed to `tcp_write` in their order,
no pbuf is used after it was freed, every call returns, and when the object is freed, with
`tcp_close` called, every pbuf taken was freed once and the pool is as it was. -/
theorem run_conn {tr : List (ConnMem × ConnAct)} (hrun : (connMem lwip pool).Run tr s) : ∃ rest,
    (select takes tr).flatten = payloads s.mem.wrote ++ payloads rest ∧
    (s.mem.took.map Prod.fst).Nodup ∧
    (s.Resting → s.state ≠ none → Linked s.mem.pbufs 1 s.mem.p rest ∧
      s.mem.freed = s.mem.wrote.map Prod.fst) ∧
    (s.state = none → s.mem.freed = s.mem.took.map Prod.fst ∧ s.mem.pbufs = pool) ∧
    (s.closed = true ↔ s.state = none) ∧
    ∃ n s', n ≤ 5 * rest.length + 6 ∧ s.goes n = some s' ∧ s'.Resting := by
  obtain ⟨⟨rest, hsound⟩, hbytes⟩ := run_sound hrun
  refine ⟨rest, ?_, hsound.nodup, ?_, ?_, hsound.closed, call_returns hsound⟩
  · rw [← hbytes, hsound.took, payloads, payloads, payloads, List.flatMap_append]
  · rintro ⟨hpc, hidle⟩ halive
    exact (hsound.idle hpc halive).2.settled (Or.inl (hidle halive))
  · intro hdead
    have hlayout := hsound.layout
    have hfreed : s.mem.freed = s.mem.took.map Prod.fst := by
      cases hpc : s.pc with
      | call =>
          simp only [Layout, hpc] at hlayout
          obtain ⟨_, hfreed⟩ | ⟨hopen, _⟩ := hlayout
          · exact hfreed
          · exact absurd hdead hopen.alive
      | cat a t =>
          simp only [Layout, hpc] at hlayout
          exact absurd hdead hlayout.1.alive
      | free p last =>
          simp only [Layout, hpc] at hlayout
          exact absurd hdead hlayout.2.1
    have hin := hsound.within
    rw [SendMem.Within, hfreed] at hin
    exact ⟨hfreed, hin.restored⟩

/-- Two chains come in, two of three pbufs are written, and the FIN frees the last. -/
theorem run_conn_two : ∃ tr s, (connMem .pool (put (fun _ => none) [(3, [9])])).Run tr s ∧
    s.state = none ∧ payloads s.mem.wrote = [7, 8] ∧ s.mem.freed = s.mem.took.map Prod.fst ∧
    s.mem.pbufs = put (fun _ => none) [(3, [9])] := by
  obtain ⟨tr, s, hrun, _, htest⟩ := Machine.exists_run_of_exec
    (connMem .pool (put (fun _ => none) [(3, [9])])) (fun _ _ => true)
    [.recv [(4, [7]), (5, [8])] 100 [.mem], .go, .go, .recv [(6, [1])] 0 [], .go, .go,
      .sent 2 [.ok, .ok], .go, .go, .go, .go, .go, .go, .go, .go, .go, .go, .go, .fin, .go, .go]
    (fun s => s.state = none ∧ payloads s.mem.wrote = [7, 8]) (by decide)
  obtain ⟨hdead, hwrote⟩ := of_decide_eq_true htest
  obtain ⟨rest, _, _, _, hend, _⟩ := run_conn hrun
  exact ⟨tr, s, hrun, hdead, hwrote, hend hdead⟩

end ConnMem

end LwipCs
