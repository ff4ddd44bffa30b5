import LwipCs.Interleave.Machine
import LwipCs.Interleave.Trace
import LwipCs.Lwip.TcpRaw
import LwipCs.Memory.Cells

/-!
# The output loop in memory

`cs_tcp_raw_send` statement by statement: `es->p` is an address, `pbuf_ref` and
`pbuf_free` work on the pbufs of the pool, and an access to a freed pbuf has no
successor. The loop is entered from `cs_tcp_char_send`, from the sent callback and
from the poll callback. Addresses of freed pbufs are not given out again: a fresh
chain gets identities that no code reads.
-/

namespace LwipCs

open Interleave Memory

/-- Where the event loop stands. -/
inductive SendPc
  | idle
  /-- before the condition of the loop -/
  | test (wrErr : ErrT)
  /-- after a successful `tcp_write` -/
  | next (ptr : Ptr)
  /-- in `pbuf_free` -/
  | free (p : Option Ptr)
  deriving DecidableEq, Repr

/-- The memory of the loop, what lwIP will answer in this call, and the history. -/
structure SendMem where
  pbufs : Store Bytes
  p : Option Ptr
  sndbuf : Nat
  writes : List ErrT
  pc : SendPc
  /-- the pbufs put into `es->p` -/
  took : List (Ptr × Bytes)
  /-- the pbufs that `tcp_write` took -/
  wrote : List (Ptr × Bytes)
  freed : List Ptr

/-- The calls into the loop and its next statement. -/
inductive SendAct
  | charSend (buf : Bytes) (alloc : Option (List Ptr)) (sndbuf : Nat) (writes : List ErrT)
  | sent (sndbuf : Nat) (writes : List ErrT)
  | poll (sndbuf : Nat) (writes : List ErrT)
  | go
  deriving DecidableEq, Repr

/-- The payloads of pbufs, one after the other. -/
def payloads (chain : List (Ptr × Bytes)) : Bytes := chain.flatMap Prod.snd

namespace SendMem

/-- Enter `cs_tcp_raw_send`. -/
def call (s : SendMem) (sndbuf : Nat) (writes : List ErrT) : SendMem :=
  { s with sndbuf, writes, pc := .test .ok }

/-- `cs_tcp_char_send`. `pbuf_alloc` yields pbufs that are in no use. -/
def charSend (lwip : Lwip) (s : SendMem) (buf : Bytes) (alloc : Option (List Ptr))
    (sndbuf : Nat) (writes : List ErrT) : Option SendMem :=
  if s.p ≠ none then some s
  else match alloc with
    | none => some s
    | some addrs =>
        if addrs.length = (charChain lwip buf).length ∧ (s.took.map Prod.fst ++ addrs).Nodup ∧
            ∀ a ∈ addrs, s.pbufs a = none then
          let chain := addrs.zip ((charChain lwip buf).map Pbuf.payload)
          some ({ s with
            pbufs := put s.pbufs chain
            p := addrs.head?
            took := s.took ++ chain }.call sndbuf writes)
        else none

/-- `cs_tcp_send` and `cs_tcp_raw_poll` enter the loop if bytes are left. -/
def resume (s : SendMem) (sndbuf : Nat) (writes : List ErrT) : SendMem :=
  if s.p ≠ none then s.call sndbuf writes else s

/-- `tcp_write` enqueued a pbuf. -/
def written (s : SendMem) (ptr : Ptr) (data : Bytes) : SendMem :=
  { s with
    sndbuf := s.sndbuf - data.length
    writes := s.writes.tail
    pc := .next ptr
    wrote := s.wrote ++ [(ptr, data)] }

/-- The condition of the loop, and `tcp_write` if it holds. -/
def test (s : SendMem) (wrErr : ErrT) : Option SendMem :=
  match wrErr, s.p with
  | .ok, some ptr =>
      (s.pbufs ptr).map fun q =>
        if q.val.length ≤ s.sndbuf then
          match s.writes.headD .mem with
          | .ok => s.written ptr q.val
          | wrErr => { s with writes := s.writes.tail, pc := .test wrErr }
        else { s with pc := .idle }
  | _, _ => some { s with pc := .idle }

/-- `es->p = ptr->next`, with `pbuf_ref` on the successor. -/
def next (s : SendMem) (ptr : Ptr) : Option SendMem :=
  (s.pbufs ptr).bind fun q =>
    match q.next with
    | none => some { s with p := none, pc := .free (some ptr) }
    | some n =>
        (s.pbufs n).map fun c =>
          { s with
            pbufs := Function.update s.pbufs n (some { c with ref := c.ref + 1 })
            p := some n
            pc := .free (some ptr) }

/-- One pbuf of the walk of `pbuf_free`. -/
def free (s : SendMem) (p : Option Ptr) : Option SendMem :=
  match p with
  | none => some { s with pc := .test .ok }
  | some a =>
      (s.pbufs a).bind fun q =>
        match q.ref with
        | 0 => none
        | 1 =>
            some { s with
              pbufs := Function.update s.pbufs a none
              pc := .free q.next
              freed := s.freed ++ [a] }
        | r + 2 =>
            some { s with
              pbufs := Function.update s.pbufs a (some { q with ref := r + 1 })
              pc := .free none }

/-- The next statement of a call. -/
def go (s : SendMem) : Option SendMem :=
  match s.pc with
  | .idle => none
  | .test wrErr => s.test wrErr
  | .next ptr => s.next ptr
  | .free p => s.free p

/-- The calls come from the event loop, one after the other. -/
def step (lwip : Lwip) (s : SendMem) (act : SendAct) : Option SendMem :=
  match act, s.pc with
  | .charSend buf alloc sndbuf writes, .idle => s.charSend lwip buf alloc sndbuf writes
  | .sent sndbuf writes, .idle => some (s.resume sndbuf writes)
  | .poll sndbuf writes, .idle => some (s.resume sndbuf writes)
  | .go, _ => s.go
  | _, _ => none

end SendMem

/-- The loop over a chain that is in `es->p`. -/
def rawSends (lwip : Lwip) (pbufs : Store Bytes) (p : Option Ptr) (chain : List (Ptr × Bytes)) :
    Machine SendMem SendAct :=
  ⟨⟨pbufs, p, 0, [], .idle, chain, [], []⟩, SendMem.step lwip⟩

/-- The bytes that a call of `cs_tcp_char_send` accepts. -/
def SendMem.accepts : SendMem × SendAct → Option Bytes
  | (s, .charSend buf (some _) _ _) => if s.p = none then some (accepted buf) else none
  | _ => none

namespace SendMem

/-- The pbufs behind the one that is being taken off, and what has been freed. -/
def Layout (s : SendMem) (rest : List (Ptr × Bytes)) : Prop :=
  match s.pc with
  | .idle | .test _ | .free none =>
      Linked s.pbufs 1 s.p rest ∧ s.freed = s.wrote.map Prod.fst
  | .next ptr =>
      (∃ v, Linked s.pbufs 1 (some ptr) ((ptr, v) :: rest)) ∧
        s.freed ++ [ptr] = s.wrote.map Prod.fst
  | .free (some a) =>
      -- `a` is the written pbuf, or its successor with the new reference
      Linked s.pbufs 2 s.p rest ∧
        ((∃ v, s.pbufs a = some ⟨v, 1, s.p⟩ ∧ a ∉ rest.map Prod.fst ∧
            s.freed ++ [a] = s.wrote.map Prod.fst) ∨
          s.p = some a ∧ s.freed = s.wrote.map Prod.fst)

/-- What was taken is what was written and the rest, and no pbuf was taken twice. -/
structure Sound (s : SendMem) (rest : List (Ptr × Bytes)) : Prop where
  layout : s.Layout rest
  took : s.took = s.wrote ++ rest
  nodup : (s.took.map Prod.fst).Nodup

/-- How many statements are left of a call. -/
def budget (s : SendMem) (rest : List (Ptr × Bytes)) : Nat :=
  match s.pc with
  | .idle => 0
  | .test .ok => 5 * rest.length + 2
  | .test _ => 1
  | .next _ => 5 * rest.length + 6
  | .free none => 5 * rest.length + 3
  | .free (some a) => if s.p = some a then 5 * rest.length + 4 else 5 * rest.length + 5

variable {lwip : Lwip} {s s' : SendMem} {rest : List (Ptr × Bytes)}

theorem written_sound {wrErr : ErrT} {ptr : Ptr} {data : Bytes} (h : s.Sound ((ptr, data) :: rest))
    (hpc : s.pc = .test wrErr) (hp : s.p = some ptr) : (s.written ptr data).Sound rest := by
  obtain ⟨hlayout, htook, hnodup⟩ := h
  simp only [Layout, hpc] at hlayout
  refine ⟨⟨⟨data, hp ▸ hlayout.1⟩, ?_⟩, ?_, hnodup⟩
  · simp [written, hlayout.2]
  · simp [written, htook]

theorem test_progress {wrErr : ErrT} (h : s.Sound rest) (hpc : s.pc = .test wrErr) :
    ∃ s' rest', s.test wrErr = some s' ∧ s'.Sound rest' ∧ s'.budget rest' < s.budget rest ∧
      s'.took = s.took := by
  obtain ⟨hlayout, htook, hnodup⟩ := h
  simp only [Layout, hpc] at hlayout
  obtain ⟨hlinked, hfreed⟩ := hlayout
  have leaves : ∃ s' rest', some { s with pc := .idle } = some s' ∧ s'.Sound rest' ∧
      s'.budget rest' < s.budget rest ∧ s'.took = s.took := by
    refine ⟨_, rest, rfl, ⟨⟨hlinked, hfreed⟩, htook, hnodup⟩, ?_, rfl⟩
    cases wrErr <;> simp [budget, hpc]
  unfold test
  split
  · rename_i ptr hp
    rw [hp] at hlinked
    obtain ⟨v, next, tail, rfl, hcell, hrest⟩ := hlinked.of_some
    simp only [hcell, Option.map_some]
    split
    · split
      · refine ⟨_, tail, rfl, ?_, ?_, rfl⟩
        · have hlayout : s.Layout ((ptr, v) :: tail) := by
            simpa only [Layout, hpc, hp] using And.intro hlinked hfreed
          exact written_sound ⟨hlayout, htook, hnodup⟩ hpc hp
        · simp only [budget, hpc, written, List.length_cons]
          omega
      · refine ⟨_, (ptr, v) :: tail, rfl, ⟨⟨?_, hfreed⟩, htook, hnodup⟩, ?_, rfl⟩
        · simpa [hp] using hlinked
        · rename_i hne
          simp only [budget, hpc]
          omega
    · exact leaves
  · exact leaves

/-- The two statements after a successful `tcp_write` change the chain alone. -/
structure Chops (s s' : SendMem) : Prop where
  took : s'.took = s.took
  wrote : s'.wrote = s.wrote
  sndbuf : s'.sndbuf = s.sndbuf
  writes : s'.writes = s.writes
  pc : (∃ p, s'.pc = .free p) ∨ s'.pc = .test .ok

theorem next_progress {ptr : Ptr} (h : s.Sound rest) (hpc : s.pc = .next ptr) :
    ∃ s', s.next ptr = some s' ∧ s'.Sound rest ∧ s'.budget rest < s.budget rest ∧
      s.Chops s' := by
  obtain ⟨hlayout, htook, hnodup⟩ := h
  simp only [Layout, hpc] at hlayout
  obtain ⟨⟨v, hlinked⟩, hfreed⟩ := hlayout
  have hnot := hlinked.notMem
  obtain ⟨_, n, hcell, hrest⟩ := hlinked
  unfold next
  simp only [hcell, Option.bind_some]
  cases n with
  | none =>
      obtain rfl := hrest.of_none
      refine ⟨_, rfl, ⟨⟨rfl, Or.inl ⟨v, hcell, hnot, hfreed⟩⟩, htook, hnodup⟩, ?_,
        ⟨rfl, rfl, rfl, rfl, Or.inl ⟨_, rfl⟩⟩⟩
      simp [budget, hpc]
  | some n =>
      obtain ⟨w, next, tail, rfl, hcell', hrest'⟩ := hrest.of_some
      have hne : ptr ≠ n := fun heq => hnot (heq ▸ List.mem_cons_self)
      simp only [hcell', Option.map_some]
      refine ⟨_, rfl, ⟨⟨hrest.recount hcell' 2, Or.inl ⟨v, ?_, hnot, hfreed⟩⟩,
        htook, hnodup⟩, ?_, ⟨rfl, rfl, rfl, rfl, Or.inl ⟨_, rfl⟩⟩⟩
      · exact (Function.update_of_ne hne _ _).trans hcell
      · simp [budget, hpc, Ne.symm hne]

theorem free_progress {p : Option Ptr} (h : s.Sound rest) (hpc : s.pc = .free p) :
    ∃ s', s.free p = some s' ∧ s'.Sound rest ∧ s'.budget rest < s.budget rest ∧
      s.Chops s' := by
  obtain ⟨hlayout, htook, hnodup⟩ := h
  cases p with
  | none =>
      simp only [Layout, hpc] at hlayout
      refine ⟨_, rfl, ⟨hlayout, htook, hnodup⟩, ?_, ⟨rfl, rfl, rfl, rfl, Or.inr rfl⟩⟩
      simp [budget, hpc]
  | some a =>
      simp only [Layout, hpc] at hlayout
      obtain ⟨hlinked, ⟨v, hcell, hnot, hfreed⟩ | ⟨hp, hfreed⟩⟩ := hlayout
      · -- the written pbuf loses its only reference
        simp only [free, hcell, Option.bind_some]
        have hkept := hlinked.update hnot none
        cases hp : s.p with
        | none =>
            rw [hp] at hkept
            obtain rfl := hkept.of_none
            refine ⟨_, rfl, ⟨⟨?_, hfreed⟩, htook, hnodup⟩, ?_,
              ⟨rfl, rfl, rfl, rfl, Or.inl ⟨_, rfl⟩⟩⟩
            · rfl
            · simp [budget, hpc, hp]
        | some n =>
            rw [hp] at hkept
            have hne : n ≠ a := by
              obtain ⟨w, next, tail, rfl, _⟩ := (hp ▸ hlinked).of_some
              rintro rfl
              exact hnot List.mem_cons_self
            refine ⟨_, rfl, ⟨⟨hkept, Or.inr ⟨rfl, hfreed⟩⟩, htook, hnodup⟩, ?_,
              ⟨rfl, rfl, rfl, rfl, Or.inl ⟨_, rfl⟩⟩⟩
            simp [budget, hpc, hp, hne]
      · -- its successor gives back the reference taken for it
        obtain ⟨v, next, tail, rfl, hcell, hrest⟩ := (hp ▸ hlinked).of_some
        simp only [free, hcell, Option.bind_some]
        refine ⟨_, rfl, ⟨⟨?_, hfreed⟩, htook, hnodup⟩, ?_, ⟨rfl, rfl, rfl, rfl, Or.inl ⟨_, rfl⟩⟩⟩
        · exact hp ▸ (hp ▸ hlinked).recount hcell 1
        · simp [budget, hpc, hp]

/-- In a call the next statement is performed, and fewer are left. -/
theorem go_progress (h : s.Sound rest) (hpc : s.pc ≠ .idle) :
    ∃ s' rest', s.go = some s' ∧ s'.Sound rest' ∧ s'.budget rest' < s.budget rest ∧
      s'.took = s.took := by
  cases hat : s.pc with
  | idle => exact absurd hat hpc
  | test wrErr => simpa only [go, hat] using test_progress h hat
  | next ptr =>
      obtain ⟨s', hnext, hsound, hless, hchops⟩ := next_progress h hat
      exact ⟨s', rest, by simpa only [go, hat] using hnext, hsound, hless, hchops.took⟩
  | free p =>
      obtain ⟨s', hfree, hsound, hless, hchops⟩ := free_progress h hat
      exact ⟨s', rest, by simpa only [go, hat] using hfree, hsound, hless, hchops.took⟩

/-- Perform the next statements. -/
def goes (s : SendMem) : Nat → Option SendMem
  | 0 => some s
  | n + 1 => (s.go).bind fun t => t.goes n

/-- A call returns. -/
theorem goes_returns (h : s.Sound rest) :
    ∃ n s' rest', n ≤ s.budget rest ∧ s.goes n = some s' ∧ s'.pc = .idle ∧ s'.Sound rest' := by
  induction hb : s.budget rest using Nat.strong_induction_on generalizing s rest with
  | _ b ih =>
      by_cases hpc : s.pc = .idle
      · exact ⟨0, s, rest, Nat.zero_le _, rfl, hpc, h⟩
      · obtain ⟨t, tail, hstep, hsound, hless, _⟩ := go_progress h hpc
        obtain ⟨n, s', rest', hn, hgoes, hidle, hsound'⟩ := ih _ (hb ▸ hless) hsound rfl
        refine ⟨n + 1, s', rest', by omega, ?_, hidle, hsound'⟩
        rw [goes, hstep, Option.bind_some, hgoes]

/-- A fresh chain in an empty `es->p`. -/
theorem fresh_sound {buf : Bytes} {addrs : List Ptr} (h : s.Sound rest) (hpc : s.pc = .idle)
    (hp : s.p = none) (hlen : addrs.length = (charChain lwip buf).length)
    (hnodup : (s.took.map Prod.fst ++ addrs).Nodup) (sndbuf : Nat) (writes : List ErrT) :
    let chain := addrs.zip ((charChain lwip buf).map Pbuf.payload)
    (({ s with
        pbufs := put s.pbufs chain
        p := addrs.head?
        took := s.took ++ chain }).call sndbuf writes).Sound chain ∧
      payloads chain = accepted buf := by
  intro chain
  have hlen : addrs.length = ((charChain lwip buf).map Pbuf.payload).length := by
    rw [hlen, List.length_map]
  have haddrs : chain.map Prod.fst = addrs := List.map_fst_zip (Nat.le_of_eq hlen)
  have hdata : chain.map Prod.snd = (charChain lwip buf).map Pbuf.payload :=
    List.map_snd_zip (Nat.le_of_eq hlen.symm)
  obtain ⟨hlayout, htook, _⟩ := h
  simp only [Layout, hpc] at hlayout
  obtain rfl : rest = [] := (hp ▸ hlayout.1).of_none
  refine ⟨⟨⟨?_, hlayout.2⟩, ?_, ?_⟩, ?_⟩
  · have hchain : (chain.map Prod.fst).Nodup := by
      rw [haddrs]
      exact (List.nodup_append.mp hnodup).2.1
    have hput : Linked (put s.pbufs chain) 1 _ chain := linked_put hchain
    rwa [haddrs] at hput
  · show s.took ++ chain = s.wrote ++ chain
    rw [htook, List.append_nil]
  · show ((s.took ++ chain).map Prod.fst).Nodup
    rwa [List.map_append, haddrs]
  · rw [payloads, List.flatMap_def, hdata, ← List.flatMap_def]
    exact chainBytes_charChain buf

theorem charSend_sound {buf : Bytes} {alloc : Option (List Ptr)} {sndbuf : Nat}
    {writes : List ErrT} (h : s.Sound rest) (hpc : s.pc = .idle)
    (hstep : s.charSend lwip buf alloc sndbuf writes = some s') :
    (∃ rest', s'.Sound rest') ∧ payloads s'.took =
      payloads s.took ++ (accepts (s, .charSend buf alloc sndbuf writes)).toList.flatten := by
  unfold charSend at hstep
  split at hstep
  · rename_i hp
    cases hstep
    cases alloc with
    | none => exact ⟨⟨rest, h⟩, by simp [accepts]⟩
    | some addrs => exact ⟨⟨rest, h⟩, by simp [accepts, hp]⟩
  · rename_i hp
    have hp : s.p = none := of_not_not hp
    cases alloc with
    | none =>
        cases hstep
        exact ⟨⟨rest, h⟩, by simp [accepts]⟩
    | some addrs =>
        simp only at hstep
        split at hstep
        · rename_i hfresh
          cases hstep
          obtain ⟨hsound, hbytes⟩ := fresh_sound h hpc hp hfresh.1 hfresh.2.1 sndbuf writes
          refine ⟨⟨_, hsound⟩, ?_⟩
          simpa [accepts, hp, payloads, call] using hbytes
        · cases hstep

theorem resume_sound (h : s.Sound rest) (hpc : s.pc = .idle) (sndbuf : Nat)
    (writes : List ErrT) : (s.resume sndbuf writes).Sound rest := by
  obtain ⟨hlayout, htook, hnodup⟩ := h
  unfold resume
  split
  · simp only [Layout, hpc] at hlayout
    exact ⟨hlayout, htook, hnodup⟩
  · exact ⟨hlayout, htook, hnodup⟩

@[simp] theorem resume_took (s : SendMem) (sndbuf : Nat) (writes : List ErrT) :
    (s.resume sndbuf writes).took = s.took := by
  unfold resume
  split <;> rfl

theorem step_sound {act : SendAct} (h : s.Sound rest) (hstep : s.step lwip act = some s') :
    (∃ rest', s'.Sound rest') ∧
      payloads s'.took = payloads s.took ++ (accepts (s, act)).toList.flatten := by
  cases act with
  | go =>
      have hgo : s.go = some s' := hstep
      have hbusy : s.pc ≠ .idle := by
        intro hpc
        simp [go, hpc] at hgo
      obtain ⟨t, tail, ht, hsound, _, htook⟩ := go_progress h hbusy
      cases ht.symm.trans hgo
      exact ⟨⟨tail, hsound⟩, by simp [htook, accepts]⟩
  | charSend buf alloc sndbuf writes =>
      cases hpc : s.pc with
      | idle =>
          simp only [step, hpc] at hstep
          exact charSend_sound h hpc hstep
      | _ => simp [step, hpc] at hstep
  | sent sndbuf writes =>
      cases hpc : s.pc with
      | idle =>
          simp only [step, hpc] at hstep
          cases hstep
          exact ⟨⟨rest, resume_sound h hpc sndbuf writes⟩, by simp [accepts]⟩
      | _ => simp [step, hpc] at hstep
  | poll sndbuf writes =>
      cases hpc : s.pc with
      | idle =>
          simp only [step, hpc] at hstep
          cases hstep
          exact ⟨⟨rest, resume_sound h hpc sndbuf writes⟩, by simp [accepts]⟩
      | _ => simp [step, hpc] at hstep

variable {pbufs : Store Bytes} {p : Option Ptr} {chain : List (Ptr × Bytes)}
variable {tr : List (SendMem × SendAct)}

theorem run_sound (h : Linked pbufs 1 p chain) (hrun : (rawSends lwip pbufs p chain).Run tr s) :
    (∃ rest, s.Sound rest) ∧
      payloads s.took = payloads chain ++ (select accepts tr).flatten := by
  induction hrun with
  | start => exact ⟨⟨chain, ⟨h, rfl⟩, rfl, h.nodup⟩, by simp [rawSends]⟩
  | step hrun hstep ih =>
      obtain ⟨⟨rest, hsound⟩, hbytes⟩ := ih
      obtain ⟨hsound', hmore⟩ := step_sound hsound hstep
      refine ⟨hsound', ?_⟩
      rw [hmore, hbytes, select_snoc, List.flatten_append, List.append_assoc]

/-- Only written pbufs are freed, in their order. -/
theorem Sound.freed_prefix (h : s.Sound rest) : s.freed <+: s.wrote.map Prod.fst := by
  have hlayout := h.layout
  unfold Layout at hlayout
  split at hlayout
  · exact hlayout.2 ▸ List.prefix_rfl
  · exact hlayout.2 ▸ List.prefix_rfl
  · exact hlayout.2 ▸ List.prefix_rfl
  · exact hlayout.2 ▸ List.prefix_append _ _
  · obtain ⟨_, ⟨v, _, _, hfreed⟩ | ⟨_, hfreed⟩⟩ := hlayout
    · exact hfreed ▸ List.prefix_append _ _
    · exact hfreed ▸ List.prefix_rfl

/-- Between two iterations and between two calls. -/
def Settled (s : SendMem) : Prop := s.pc = .idle ∨ ∃ wrErr, s.pc = .test wrErr

theorem Sound.settled (h : s.Sound rest) (hs : s.Settled) :
    Linked s.pbufs 1 s.p rest ∧ s.freed = s.wrote.map Prod.fst := by
  have hlayout := h.layout
  rcases hs with hpc | ⟨wrErr, hpc⟩
  · simpa only [Layout, hpc] using hlayout
  · simpa only [Layout, hpc] using hlayout

theorem budget_le (s : SendMem) (rest : List (Ptr × Bytes)) :
    s.budget rest ≤ 5 * rest.length + 6 := by
  unfold budget
  split
  · omega
  · omega
  · omega
  · omega
  · omega
  · split <;> omega

/-- What the loop wrote, followed by the chain it has left, is the chain it found and what
later calls accepted; it frees exactly what it wrote, each pbuf once, and it returns. -/
theorem rawSends_accounted (h : Linked pbufs 1 p chain)
    (hrun : (rawSends lwip pbufs p chain).Run tr s) : ∃ rest,
      payloads s.wrote ++ payloads rest = payloads chain ++ (select accepts tr).flatten ∧
      (s.wrote.map Prod.fst ++ rest.map Prod.fst).Nodup ∧
      s.freed <+: s.wrote.map Prod.fst ∧
      (s.Settled → Linked s.pbufs 1 s.p rest ∧ s.freed = s.wrote.map Prod.fst) ∧
      ∃ n s', n ≤ 5 * rest.length + 6 ∧ s.goes n = some s' ∧ s'.pc = .idle := by
  obtain ⟨⟨rest, hsound⟩, hbytes⟩ := run_sound h hrun
  obtain ⟨n, s', rest', hn, hgoes, hidle, _⟩ := goes_returns hsound
  refine ⟨rest, ?_, ?_, hsound.freed_prefix, hsound.settled, n, s', ?_, hgoes, hidle⟩
  · rw [← hbytes, hsound.took, payloads, payloads, payloads, List.flatMap_append]
  · rw [← List.map_append, ← hsound.took]
    exact hsound.nodup
  · exact Nat.le_trans hn (s.budget_le rest)

/-- Two pbufs are written in two calls, the second one from the sent callback. -/
theorem rawSends_accounted_pair : ∃ tr s,
    (rawSends .pool (put (fun _ => none) [(4, [7]), (9, [8])]) (some 4)
      [(4, [7]), (9, [8])]).Run tr s ∧
      payloads s.wrote = [7, 8] ∧ ∃ rest,
      payloads s.wrote ++ payloads rest = [7, 8] ++ (select accepts tr).flatten ∧
      (s.wrote.map Prod.fst ++ rest.map Prod.fst).Nodup ∧
      s.freed <+: s.wrote.map Prod.fst ∧
      (s.Settled → Linked s.pbufs 1 s.p rest ∧ s.freed = s.wrote.map Prod.fst) ∧
      ∃ n s', n ≤ 5 * rest.length + 6 ∧ s.goes n = some s' ∧ s'.pc = .idle := by
  obtain ⟨tr, s, hrun, _, htest⟩ := Machine.exists_run_of_exec
    (rawSends .pool (put (fun _ => none) [(4, [7]), (9, [8])]) (some 4) [(4, [7]), (9, [8])])
    (fun _ _ => true)
    [.poll 100 [.ok, .mem], .go, .go, .go, .go, .go, .go, .go, .sent 100 [.ok], .go, .go, .go, .go]
    (fun s => payloads s.wrote = [7, 8]) (by decide)
  exact ⟨tr, s, hrun, of_decide_eq_true htest, rawSends_accounted (linked_put (by decide)) hrun⟩

theorem goes_add {n k : Nat} {t : SendMem} (h : s.goes n = some t) :
    s.goes (n + k) = t.goes k := by
  induction n generalizing s with
  | zero =>
      cases h
      rw [Nat.zero_add]
  | succ n ih =>
      obtain ⟨u, hu, hrest⟩ := Option.bind_eq_some_iff.mp h
      rw [Nat.add_right_comm, goes, hu, Option.bind_some, ih hrest]

/-- A written pbuf is taken off the chain before the condition is tested again. -/
theorem chops_returns (h : s.Sound rest) (hpc : (∃ ptr, s.pc = .next ptr) ∨ ∃ p, s.pc = .free p) :
    ∃ n s', s.goes n = some s' ∧ s'.pc = .test .ok ∧ s'.Sound rest ∧ s.Chops s' := by
  induction hb : s.budget rest using Nat.strong_induction_on generalizing s with
  | _ b ih =>
      have hstep : ∃ t, s.go = some t ∧ t.Sound rest ∧ t.budget rest < s.budget rest ∧
          s.Chops t := by
        rcases hpc with ⟨ptr, hat⟩ | ⟨p, hat⟩
        · simpa only [go, hat] using next_progress h hat
        · simpa only [go, hat] using free_progress h hat
      obtain ⟨t, hstep, hsound, hless, hchops⟩ := hstep
      have hone : s.goes 1 = some t := by simp [goes, hstep]
      rcases hchops.pc with hfree | htest
      · obtain ⟨n, s', hgoes, hat, hsound', hchops'⟩ :=
          ih _ (hb ▸ hless) hsound (Or.inr hfree) rfl
        refine ⟨1 + n, s', (goes_add hone).trans hgoes, hat, hsound', ?_⟩
        exact ⟨hchops'.took.trans hchops.took, hchops'.wrote.trans hchops.wrote,
          hchops'.sndbuf.trans hchops.sndbuf, hchops'.writes.trans hchops.writes, hchops'.pc⟩
      · exact ⟨1, t, hone, htest, hsound, hchops⟩

/-- The chain as a list of pbufs with one reference each. -/
def pbufsOf (chain : List (Ptr × Bytes)) : List Pbuf := chain.map fun x => ⟨x.2, 1⟩

theorem single_pbufsOf (chain : List (Ptr × Bytes)) : Single (pbufsOf chain) := by
  intro q hq
  obtain ⟨x, _, rfl⟩ := List.mem_map.mp hq
  rfl

theorem csTcpRawSend_cons {q : Pbuf} {next : List Pbuf} {sndbuf : Nat} {writes : List ErrT}
    (h : Single (q :: next)) (hfit : q.payload.length ≤ sndbuf) (hok : writes.headD .mem = .ok) :
    (csTcpRawSend lwip (q :: next) sndbuf writes).p =
        (csTcpRawSend lwip next (sndbuf - q.payload.length) writes.tail).p ∧
      (csTcpRawSend lwip (q :: next) sndbuf writes).wrote =
        q.payload :: (csTcpRawSend lwip next (sndbuf - q.payload.length) writes.tail).wrote := by
  simp [csTcpRawSend, csTcpRawSendLoop, hfit, hok, pbufFree_ref_next h, -List.headD_eq_head?_getD]

theorem csTcpRawSend_stop (q : Pbuf) (next : List Pbuf) {sndbuf : Nat} {writes : List ErrT}
    (h : q.payload.length ≤ sndbuf → writes.headD .mem ≠ .ok) :
    (csTcpRawSend lwip (q :: next) sndbuf writes).p = q :: next ∧
      (csTcpRawSend lwip (q :: next) sndbuf writes).wrote = [] := by
  simp only [csTcpRawSend, List.length_cons, csTcpRawSendLoop]
  split
  · rename_i hfit
    split
    · rename_i hok
      exact absurd hok (h hfit)
    · exact ⟨rfl, rfl⟩
  · exact ⟨rfl, rfl⟩

/-- A call in memory leaves and writes what `cs_tcp_raw_send` on the list of the pbufs does. -/
theorem goes_csTcpRawSend (h : s.Sound rest) (hpc : s.pc = .test .ok) :
    ∃ n s' rest', s.goes n = some s' ∧ s'.pc = .idle ∧ s'.Sound rest' ∧
      pbufsOf rest' = (csTcpRawSend lwip (pbufsOf rest) s.sndbuf s.writes).p ∧
      s'.wrote.map Prod.snd =
        s.wrote.map Prod.snd ++ (csTcpRawSend lwip (pbufsOf rest) s.sndbuf s.writes).wrote := by
  have hlinked := h.settled (Or.inr ⟨_, hpc⟩)
  induction rest generalizing s with
  | nil =>
      have hp : s.p = none := hlinked.1
      refine ⟨1, { s with pc := .idle }, [], ?_, rfl, ⟨hlinked, h.took, h.nodup⟩, rfl, ?_⟩
      · simp [goes, go, hpc, test, hp]
      · exact (List.append_nil _).symm
  | cons x tail ih =>
      obtain ⟨a, v⟩ := x
      obtain ⟨hp, next, hcell, _⟩ := hlinked.1
      by_cases hfit : v.length ≤ s.sndbuf
      · by_cases hok : s.writes.headD .mem = .ok
        · -- one pbuf is written and taken off, and the condition is tested again
          have hwrite : s.goes 1 = some (s.written a v) := by
            simp [goes, go, hpc, test, hp, hcell, hfit, hok, -List.headD_eq_head?_getD]
          obtain ⟨n, u, hchop, hat, hsound, hchops⟩ := chops_returns (written_sound h hpc hp)
            (Or.inl ⟨a, rfl⟩)
          obtain ⟨k, s', rest', hgoes, hidle, hsound', hleft, hwrote⟩ :=
            ih hsound hat (hsound.settled (Or.inr ⟨_, hat⟩))
          have hsingle : Single (⟨v, 1⟩ :: pbufsOf tail) := single_pbufsOf ((a, v) :: tail)
          obtain ⟨hp', hwrote'⟩ := csTcpRawSend_cons hsingle hfit hok
          refine ⟨1 + (n + k), s', rest', ?_, hidle, hsound', ?_, ?_⟩
          · rw [goes_add hwrite, goes_add hchop, hgoes]
          · rw [hleft, hchops.sndbuf, hchops.writes]
            exact hp'.symm
          · rw [hwrote, hchops.wrote, hchops.sndbuf, hchops.writes]
            show (s.wrote ++ [(a, v)]).map Prod.snd ++ _ =
              _ ++ (csTcpRawSend lwip (⟨v, 1⟩ :: pbufsOf tail) _ _).wrote
            rw [hwrote', List.map_append, List.append_assoc]
            rfl
        · obtain ⟨hp', hwrote'⟩ := csTcpRawSend_stop ⟨v, 1⟩ (pbufsOf tail) fun _ => hok
          refine ⟨2, { s with writes := s.writes.tail, pc := .idle }, (a, v) :: tail, ?_, rfl,
            ⟨hlinked, h.took, h.nodup⟩, hp'.symm, ?_⟩
          · cases hw : s.writes.headD .mem with
            | ok => exact absurd hw hok
            | _ => simp [goes, go, hpc, test, hp, hcell, hfit, hw, -List.headD_eq_head?_getD]
          · show _ = _ ++ (csTcpRawSend lwip (⟨v, 1⟩ :: pbufsOf tail) _ _).wrote
            rw [hwrote', List.append_nil]
      · have hstop : v.length ≤ s.sndbuf → s.writes.headD .mem ≠ .ok := fun hle => absurd hle hfit
        obtain ⟨hp', hwrote'⟩ := csTcpRawSend_stop ⟨v, 1⟩ (pbufsOf tail) hstop
        refine ⟨1, { s with pc := .idle }, (a, v) :: tail, ?_, rfl, ⟨hlinked, h.took, h.nodup⟩,
          hp'.symm, ?_⟩
        · simp [goes, go, hpc, test, hp, hcell, hfit]
        · show _ = _ ++ (csTcpRawSend lwip (⟨v, 1⟩ :: pbufsOf tail) _ _).wrote
          rw [hwrote', List.append_nil]

end SendMem

end LwipCs
