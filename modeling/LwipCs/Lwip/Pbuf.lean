import LwipCs.Lwip.Addr
import Mathlib.Algebra.Ring.Nat

/-!
# Packet buffers

A pbuf chain is the list of its pbufs from the head; `NULL` is the empty list.
lwIP's pbuf functions are a parameter, with what the glue relies on: a pool
allocation, the copy into a fresh chain, and the two reference operations.
Lengths are `u16_t`, so a longer request is taken modulo `2 ^ 16`. At the end
stands a pool that does what is asked.
-/

namespace LwipCs

/-- One pbuf of a chain: its payload and its reference count. -/
structure Pbuf where
  payload : Bytes
  ref : Nat
  deriving DecidableEq, Repr

/-- The bytes of a chain. -/
def chainBytes (chain : List Pbuf) : Bytes := chain.flatMap Pbuf.payload

@[simp] theorem chainBytes_nil : chainBytes [] = [] := rfl

@[simp] theorem chainBytes_cons (q : Pbuf) (chain : List Pbuf) :
    chainBytes (q :: chain) = q.payload ++ chainBytes chain := rfl

/-- Narrowing to `u16_t`. -/
def u16 (n : Nat) : Nat := n % 2 ^ 16

theorem u16_of_lt {n : Nat} (h : n < 2 ^ 16) : u16 n = n := Nat.mod_eq_of_lt h

/-- The pbuf functions of lwIP that the glue calls. -/
structure Lwip where
  /-- a successful `pbuf_alloc(PBUF_RAW, len, PBUF_POOL)` -/
  pbufAlloc : Nat → List Pbuf
  pbufTake : List Pbuf → Bytes → List Pbuf
  pbufRef : List Pbuf → List Pbuf
  /-- the freed part of the chain, and what is left of it -/
  pbufFree : List Pbuf → List Pbuf × List Pbuf
  /-- a fresh chain has at least one pbuf, and room for exactly the requested bytes -/
  alloc_ne_nil : ∀ len, pbufAlloc len ≠ []
  alloc_length : ∀ len, (chainBytes (pbufAlloc len)).length = len
  alloc_payload : ∀ len, 0 < len → ∀ q ∈ pbufAlloc len, q.payload ≠ []
  alloc_ref : ∀ len, ∀ q ∈ pbufAlloc len, q.ref = 1
  /-- the copy changes nothing but the payloads, which then are the data -/
  take_ref : ∀ chain data, (pbufTake chain data).map Pbuf.ref = chain.map Pbuf.ref
  take_payload : ∀ chain data, (pbufTake chain data).map (fun q => q.payload.length) =
    chain.map fun q => q.payload.length
  take_bytes : ∀ chain data, data.length = (chainBytes chain).length →
    chainBytes (pbufTake chain data) = data
  ref_nil : pbufRef [] = []
  ref_cons : ∀ q chain, pbufRef (q :: chain) = { q with ref := q.ref + 1 } :: chain
  /-- a pbuf whose last reference goes is freed, and the walk goes on with its successor -/
  free_nil : pbufFree [] = ([], [])
  free_last : ∀ q chain, q.ref = 1 →
    pbufFree (q :: chain) = (q :: (pbufFree chain).1, (pbufFree chain).2)
  free_shared : ∀ q chain, 1 < q.ref →
    pbufFree (q :: chain) = ([], { q with ref := q.ref - 1 } :: chain)

namespace Lwip

variable (lwip : Lwip)

theorem take_length (chain : List Pbuf) (data : Bytes) :
    (lwip.pbufTake chain data).length = chain.length := by
  simpa using congrArg List.length (lwip.take_ref chain data)

/-- The copy keeps the references of a fresh chain. -/
theorem take_single {chain : List Pbuf} {data : Bytes} (h : ∀ q ∈ chain, q.ref = 1) :
    ∀ q ∈ lwip.pbufTake chain data, q.ref = 1 := by
  intro q hq
  have hmem : q.ref ∈ (lwip.pbufTake chain data).map Pbuf.ref := List.mem_map_of_mem hq
  rw [lwip.take_ref] at hmem
  obtain ⟨r, hr, heq⟩ := List.mem_map.mp hmem
  exact heq.symm.trans (h r hr)

/-- The copy fills payloads without changing their lengths. -/
theorem take_filled {chain : List Pbuf} {data : Bytes} (h : ∀ q ∈ chain, q.payload ≠ []) :
    ∀ q ∈ lwip.pbufTake chain data, q.payload ≠ [] := by
  intro q hq
  have hmem : q.payload.length ∈ (lwip.pbufTake chain data).map fun q => q.payload.length :=
    List.mem_map_of_mem hq
  rw [lwip.take_payload] at hmem
  obtain ⟨r, hr, heq⟩ := List.mem_map.mp hmem
  apply List.ne_nil_of_length_pos
  rw [← heq]
  exact List.length_pos_iff.mpr (h r hr)

end Lwip

/-! ### A pool -/

/-- `PBUF_POOL_BUFSIZE` of `lwipopts.h`. -/
def pbufPoolBufsize : Nat := 256

/-- The `i`-th pbuf of a fresh pool chain of `len` bytes. -/
def poolPbuf (len i : Nat) : Pbuf :=
  { payload := List.replicate (min pbufPoolBufsize (len - pbufPoolBufsize * i)) 0, ref := 1 }

/-- Pool pbufs until the length is covered, at least one, each with one reference. -/
def poolAlloc (len : Nat) : List Pbuf :=
  (List.range (max 1 ((len + (pbufPoolBufsize - 1)) / pbufPoolBufsize))).map (poolPbuf len)

/-- Fill the chain with the data, one pbuf after the other. -/
def poolTake : List Pbuf → Bytes → List Pbuf
  | [], _ => []
  | q :: chain, data =>
      { q with payload := data.take q.payload.length ++ q.payload.drop data.length } ::
        poolTake chain (data.drop q.payload.length)

/-- One more reference on the head of a chain. -/
def poolRef : List Pbuf → List Pbuf
  | [] => []
  | q :: chain => { q with ref := q.ref + 1 } :: chain

/-- Take one reference from the head, and go on while pbufs are freed. -/
def poolFree : List Pbuf → List Pbuf × List Pbuf
  | [] => ([], [])
  | q :: chain =>
      if q.ref ≤ 1 then (q :: (poolFree chain).1, (poolFree chain).2)
      else ([], { q with ref := q.ref - 1 } :: chain)

private theorem poolPbufs_length (len n : Nat) :
    (chainBytes ((List.range n).map (poolPbuf len))).length = min (pbufPoolBufsize * n) len := by
  induction n with
  | zero => simp
  | succ n ih =>
      have hsplit : chainBytes ((List.range (n + 1)).map (poolPbuf len)) =
          chainBytes ((List.range n).map (poolPbuf len)) ++ (poolPbuf len n).payload := by
        simp [chainBytes, List.range_succ]
      rw [hsplit, List.length_append, ih]
      simp only [poolPbuf, pbufPoolBufsize, List.length_replicate]
      omega

/-- A fresh chain holds exactly the requested number of bytes. -/
theorem chainBytes_poolAlloc_length (len : Nat) : (chainBytes (poolAlloc len)).length = len := by
  unfold poolAlloc
  rw [poolPbufs_length]
  simp only [pbufPoolBufsize]
  omega

theorem poolAlloc_ne_nil (len : Nat) : poolAlloc len ≠ [] := by
  simp [poolAlloc]

theorem poolAlloc_ref {len : Nat} {q : Pbuf} (h : q ∈ poolAlloc len) : q.ref = 1 := by
  obtain ⟨i, _, rfl⟩ := List.mem_map.mp h
  rfl

/-- The pbufs of a fresh chain of at least one byte all have room. -/
theorem poolAlloc_payload {len : Nat} (hlen : 0 < len) {q : Pbuf} (h : q ∈ poolAlloc len) :
    q.payload ≠ [] := by
  obtain ⟨i, hi, rfl⟩ := List.mem_map.mp h
  have hi := List.mem_range.mp hi
  apply List.ne_nil_of_length_pos
  simp only [poolPbuf, pbufPoolBufsize, List.length_replicate] at hi ⊢
  omega

theorem poolTake_ref (chain : List Pbuf) (data : Bytes) :
    (poolTake chain data).map Pbuf.ref = chain.map Pbuf.ref := by
  induction chain generalizing data with
  | nil => rfl
  | cons q chain ih => rw [poolTake, List.map_cons, List.map_cons, ih]

theorem poolTake_payload (chain : List Pbuf) (data : Bytes) :
    (poolTake chain data).map (fun q => q.payload.length) =
      chain.map fun q => q.payload.length := by
  induction chain generalizing data with
  | nil => rfl
  | cons q chain ih =>
      rw [poolTake, List.map_cons, List.map_cons, ih, List.length_append, List.length_take,
        List.length_drop]
      congr 1
      omega

/-- Copying as many bytes as the chain holds puts exactly these bytes in it. -/
theorem chainBytes_poolTake (chain : List Pbuf) (data : Bytes)
    (h : data.length = (chainBytes chain).length) : chainBytes (poolTake chain data) = data := by
  induction chain generalizing data with
  | nil => exact (List.eq_nil_of_length_eq_zero h).symm
  | cons q chain ih =>
      rw [chainBytes_cons, List.length_append] at h
      have hrest : (data.drop q.payload.length).length = (chainBytes chain).length := by
        rw [List.length_drop]
        omega
      have hfull : q.payload.drop data.length = [] := List.drop_eq_nil_of_le (by omega)
      rw [poolTake, chainBytes_cons, ih _ hrest, hfull, List.append_nil, List.take_append_drop]

/-- The functions of the pool. -/
def Lwip.pool : Lwip where
  pbufAlloc := poolAlloc
  pbufTake := poolTake
  pbufRef := poolRef
  pbufFree := poolFree
  alloc_ne_nil := poolAlloc_ne_nil
  alloc_length := chainBytes_poolAlloc_length
  alloc_payload _ hlen _ := poolAlloc_payload hlen
  alloc_ref _ _ := poolAlloc_ref
  take_ref := poolTake_ref
  take_payload := poolTake_payload
  take_bytes := chainBytes_poolTake
  ref_nil := rfl
  ref_cons _ _ := rfl
  free_nil := rfl
  free_last _ _ hone := if_pos (le_of_eq hone)
  free_shared _ _ hmore := if_neg (Nat.not_le_of_lt hmore)

end LwipCs
