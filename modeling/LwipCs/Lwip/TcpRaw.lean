import LwipCs.Lwip.Pbuf

/-!
# The per-connection state of the C layer

`cs_tcp_raw_accept` allocates one `cs_tcp_raw_state` for each connection and
passes it to lwIP as the callback argument. Its field `p` is the chain of bytes
accepted from the Go side and not yet taken by `tcp_write`.

The answers of `tcp_write` are an argument: one result for each call, in order,
and `ERR_MEM` once the list is used up. `tcp_sndbuf` is an argument as well; a
successful `tcp_write` lowers it by the length it enqueued.
-/

namespace LwipCs

/-- The address of an object of the C heap or of lwIP's pools. -/
abbrev Ptr := Nat

/-- The identity of a TCP connection. Addresses are reused, identities are not;
no code reads them. -/
abbrev ConnId := Nat

/-- `err_t`, as far as the bridge tells its values apart. -/
inductive ErrT
  | ok
  | mem
  | val
  | abrt
  | other
  deriving DecidableEq, Repr

/-- `enum cs_tcp_raw_states`. -/
inductive RawStates
  | none
  | accepted
  | received
  | closing
  deriving DecidableEq, Repr

/-- `struct cs_tcp_raw_state`, with the identity of the connection whose accept
allocated it. -/
structure RawState where
  state : RawStates
  pcb : Ptr
  p : List Pbuf
  conn : ConnId
  deriving DecidableEq, Repr

/-- The effects of one run of `cs_tcp_raw_send`: the chain left in `es->p`, the
payloads `tcp_write` took, the number of its calls, and the pbufs freed. -/
structure SendRun where
  p : List Pbuf
  wrote : List Bytes
  attempts : Nat
  freed : List Pbuf
  deriving DecidableEq, Repr

/-- The loop of `cs_tcp_raw_send`. After a successful write `es->p` is the
successor of `ptr`, which gains a reference before `ptr` loses its own. If
`pbuf_free` keeps `ptr`, the chain behind it is untouched. -/
def csTcpRawSendLoop (lwip : Lwip) : Nat → List Pbuf → Nat → List ErrT → SendRun
  | fuel + 1, ptr :: next, sndbuf, results =>
      if ptr.payload.length ≤ sndbuf then
        match results.headD .mem with
        | .ok =>
            let freed := lwip.pbufFree (ptr :: lwip.pbufRef next)
            let more := csTcpRawSendLoop lwip fuel (freed.2.drop (1 - freed.1.length))
              (sndbuf - ptr.payload.length) results.tail
            { p := more.p
              wrote := ptr.payload :: more.wrote
              attempts := more.attempts + 1
              freed := freed.1 ++ more.freed }
        | _ => { p := ptr :: next, wrote := [], attempts := 1, freed := [] }
      else { p := ptr :: next, wrote := [], attempts := 0, freed := [] }
  | _, p, _, _ => { p := p, wrote := [], attempts := 0, freed := [] }

/-- `cs_tcp_raw_send`. Every iteration that goes on has dropped one pbuf, so the
length of the chain bounds their number. -/
def csTcpRawSend (lwip : Lwip) (p : List Pbuf) (sndbuf : Nat) (results : List ErrT) : SendRun :=
  csTcpRawSendLoop lwip p.length p sndbuf results

/-- A chain whose pbufs all have one reference. -/
def Single (chain : List Pbuf) : Prop := ∀ q ∈ chain, q.ref = 1

@[simp] theorem single_nil : Single [] := by simp [Single]

@[simp] theorem single_cons {q : Pbuf} {chain : List Pbuf} :
    Single (q :: chain) ↔ q.ref = 1 ∧ Single chain := by
  simp [Single]

/-- A chain without empty pbufs. -/
def Filled (chain : List Pbuf) : Prop := ∀ q ∈ chain, q.payload ≠ []

@[simp] theorem filled_nil : Filled [] := by simp [Filled]

theorem Filled.bytes_ne_nil {chain : List Pbuf} (h : Filled chain) (hne : chain ≠ []) :
    chainBytes chain ≠ [] := by
  cases chain with
  | nil => exact absurd rfl hne
  | cons q rest => simp [h q List.mem_cons_self]

variable {lwip : Lwip}

/-- Freeing the head after referencing its successor frees the head alone. -/
theorem pbufFree_ref_next {ptr : Pbuf} {next : List Pbuf} (h : Single (ptr :: next)) :
    lwip.pbufFree (ptr :: lwip.pbufRef next) = ([ptr], next) := by
  obtain ⟨hptr, hnext⟩ := single_cons.mp h
  rw [lwip.free_last _ _ hptr]
  cases next with
  | nil => rw [lwip.ref_nil, lwip.free_nil]
  | cons q rest =>
      obtain ⟨payload, ref⟩ := q
      obtain rfl : ref = 1 := (single_cons.mp hnext).1
      rw [lwip.ref_cons, lwip.free_shared _ _ (Nat.lt_succ_self 1)]
      rfl

/-- What `cs_tcp_raw_send` wrote followed by what it left is what it found, and
the chain it leaves is a suffix of the one it found. -/
theorem csTcpRawSendLoop_spec (fuel : Nat) (p : List Pbuf) (sndbuf : Nat) (results : List ErrT)
    (h : Single p) :
    (csTcpRawSendLoop lwip fuel p sndbuf results).wrote.flatten ++
        chainBytes (csTcpRawSendLoop lwip fuel p sndbuf results).p = chainBytes p ∧
      (csTcpRawSendLoop lwip fuel p sndbuf results).freed ++
        (csTcpRawSendLoop lwip fuel p sndbuf results).p = p := by
  induction fuel generalizing p sndbuf results with
  | zero => cases p <;> simp [csTcpRawSendLoop]
  | succ fuel ih =>
      cases p with
      | nil => simp [csTcpRawSendLoop]
      | cons ptr next =>
          simp only [csTcpRawSendLoop]
          split
          · split
            · obtain ⟨hbytes, hchain⟩ := ih next (sndbuf - ptr.payload.length) results.tail
                (single_cons.mp h).2
              simp only [pbufFree_ref_next h, List.length_singleton, Nat.sub_self, List.drop_zero]
              constructor
              · rw [List.flatten_cons, List.append_assoc, hbytes, chainBytes_cons]
              · rw [List.append_assoc, hchain, List.singleton_append]
            · simp
          · simp

theorem csTcpRawSend_bytes {p : List Pbuf} (h : Single p) (sndbuf : Nat) (results : List ErrT) :
    (csTcpRawSend lwip p sndbuf results).wrote.flatten ++
      chainBytes (csTcpRawSend lwip p sndbuf results).p = chainBytes p :=
  (csTcpRawSendLoop_spec p.length p sndbuf results h).1

/-- Exactly the pbufs taken off the chain are freed, each once. -/
theorem csTcpRawSend_freed {p : List Pbuf} (h : Single p) (sndbuf : Nat) (results : List ErrT) :
    (csTcpRawSend lwip p sndbuf results).freed ++ (csTcpRawSend lwip p sndbuf results).p = p :=
  (csTcpRawSendLoop_spec p.length p sndbuf results h).2

theorem csTcpRawSend_single {p : List Pbuf} (h : Single p) (sndbuf : Nat) (results : List ErrT) :
    Single (csTcpRawSend lwip p sndbuf results).p := by
  intro q hq
  apply h
  rw [← csTcpRawSend_freed h sndbuf results]
  exact List.mem_append_right _ hq

theorem csTcpRawSend_filled {p : List Pbuf} (h : Single p) (hfilled : Filled p) (sndbuf : Nat)
    (results : List ErrT) : Filled (csTcpRawSend lwip p sndbuf results).p := by
  intro q hq
  apply hfilled
  rw [← csTcpRawSend_freed h sndbuf results]
  exact List.mem_append_right _ hq

/-- A chain that `cs_tcp_raw_send` leaves empty was written. -/
theorem csTcpRawSend_wrote {p : List Pbuf} (h : Single p) (hfilled : Filled p) (hne : p ≠ [])
    {sndbuf : Nat} {results : List ErrT} (hempty : (csTcpRawSend lwip p sndbuf results).p = []) :
    0 < (csTcpRawSend lwip p sndbuf results).wrote.flatten.length := by
  have hbytes : (csTcpRawSend lwip p sndbuf results).wrote.flatten = chainBytes p := by
    rw [← csTcpRawSend_bytes h sndbuf results, hempty, chainBytes_nil, List.append_nil]
  rw [hbytes]
  exact List.length_pos_iff.mpr (hfilled.bytes_ne_nil hne)

/-- The bytes `cs_tcp_char_send` copies from a buffer: `pbuf_alloc` and
`pbuf_take` get the length narrowed to `u16_t`. -/
def accepted (buf : Bytes) : Bytes := buf.take (u16 buf.length)

theorem accepted_of_lt {buf : Bytes} (h : buf.length < 2 ^ 16) : accepted buf = buf := by
  rw [accepted, u16_of_lt h, List.take_length]

/-- The chain `cs_tcp_char_send` builds for a buffer. -/
def charChain (lwip : Lwip) (buf : Bytes) : List Pbuf :=
  lwip.pbufTake (lwip.pbufAlloc (u16 buf.length)) (accepted buf)

theorem chainBytes_charChain (buf : Bytes) : chainBytes (charChain lwip buf) = accepted buf := by
  have hle : u16 buf.length ≤ buf.length := Nat.mod_le _ _
  have hlen : (accepted buf).length = (chainBytes (lwip.pbufAlloc (u16 buf.length))).length := by
    rw [lwip.alloc_length, accepted, List.length_take_of_le hle]
  rw [charChain, lwip.take_bytes _ _ hlen]

theorem charChain_ne_nil (buf : Bytes) : charChain lwip buf ≠ [] := by
  apply List.ne_nil_of_length_pos
  rw [charChain, lwip.take_length]
  exact List.length_pos_iff.mpr (lwip.alloc_ne_nil _)

theorem charChain_filled {buf : Bytes} (h : u16 buf.length ≠ 0) : Filled (charChain lwip buf) :=
  lwip.take_filled (lwip.alloc_payload _ (Nat.pos_of_ne_zero h))

theorem charChain_single (lwip : Lwip) (buf : Bytes) : Single (charChain lwip buf) :=
  lwip.take_single (lwip.alloc_ref _)

end LwipCs
