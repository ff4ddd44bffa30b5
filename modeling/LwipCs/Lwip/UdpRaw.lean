import LwipCs.Interleave.Trace
import LwipCs.Lwip.TcpRaw

/-!
# The one UDP pcb

`cs_udp_char_sendto` stores a flow's local address in the pcb, sends, and puts the
old one back. Its early exit comes before the store. The functions of lwIP below it
are given by their answers, and the calls it makes of them are recorded.

A buffer length is an `int` on the way from Go and a `u16_t` in `pbuf_alloc` and
`pbuf_take`.
-/

namespace LwipCs

open Interleave

/-! ### Lengths -/

/-- A C `int`. -/
abbrev CInt := BitVec 32

/-- `C.int` of a Go length. -/
def cInt (n : Nat) : CInt := BitVec.ofNat 32 n

/-- Passing an `int` for a `u16_t`. -/
def CInt.toU16 (n : CInt) : Nat := (n.setWidth 16).toNat

/-- The `int` in between changes nothing: a length arrives modulo `2 ^ 16`. -/
theorem toU16_cInt (n : Nat) : (cInt n).toU16 = u16 n := by
  have hdvd : 2 ^ 16 ∣ 2 ^ 32 := Nat.pow_dvd_pow 2 (by omega)
  rw [CInt.toU16, cInt, BitVec.toNat_setWidth, BitVec.toNat_ofNat, u16]
  exact Nat.mod_mod_of_dvd n hdvd

/-- The pbuf both send functions make: `pbuf_alloc(PBUF_RAW, buf_len, PBUF_POOL)` and
`pbuf_take(p, buf, buf_len)`. -/
def charPbuf (lwip : Lwip) (buf : Bytes) (bufLen : CInt) : List Pbuf :=
  lwip.pbufTake (lwip.pbufAlloc bufLen.toU16) (buf.take bufLen.toU16)

theorem charPbuf_cInt (lwip : Lwip) (buf : Bytes) :
    charPbuf lwip buf (cInt buf.length) = charChain lwip buf := by
  rw [charPbuf, toU16_cInt, charChain, accepted]

/-- The pbuf for a buffer holds all of it exactly if the length is a `u16_t`. -/
theorem accepted_eq_iff {buf : Bytes} : accepted buf = buf ↔ buf.length < 2 ^ 16 := by
  constructor
  · intro h
    have hlen := congrArg List.length h
    have hlt : u16 buf.length < 2 ^ 16 := Nat.mod_lt _ (by omega)
    rw [accepted, List.length_take] at hlen
    omega
  · exact accepted_of_lt

/-! ### The pcb -/

/-- A `struct netif`, by its address. -/
abbrev Netif := Ptr

/-- The fields of `struct udp_pcb` that select an interface. -/
structure UdpIface where
  netifIdx : UInt8
  mcastIfindex : UInt8
  mcastIp4 : BitVec 32
  deriving DecidableEq, Repr

/-- The fields of `struct udp_pcb` that the send path reads. -/
structure UdpRaw extends UdpIface where
  localEnd : Endpoint
  deriving DecidableEq, Repr

/-- `NETIF_NO_INDEX`. -/
def netifNoIndex : UInt8 := 0

/-- lwIP's list of interfaces and its routing table. -/
structure Routing where
  netifGetByIndex : UInt8 → Option Netif
  ipRoute : IpAddr → IpAddr → Option Netif
  ip4RouteSrc : BitVec 32 → BitVec 32 → Option Netif

/-- `ip_addr_ismulticast`, on the first octet. -/
def IpAddr.isMulticast : IpAddr → Bool
  | .v4 addr => 224 ≤ octet addr 0 && octet addr 0 ≤ 239
  | .v6 addr0 .. => octet addr0 0 == 255

/-- `IP_IS_V4`. -/
def IpAddr.isV4 : IpAddr → Bool
  | .v4 _ => true
  | .v6 .. => false

/-- `ip_2_ip4`: the first word of the union. -/
def IpAddr.ip2Ip4 : IpAddr → BitVec 32
  | .v4 addr => addr
  | .v6 addr0 .. => addr0

/-- `IP4_ADDR_BROADCAST`. -/
def ip4AddrBroadcast : BitVec 32 := 0xFFFFFFFF#32

/-- `cs_get_current_netif`. -/
def csGetCurrentNetif (net : Routing) (pcb : UdpRaw) (dstIp : IpAddr) : Option Netif :=
  if pcb.netifIdx ≠ netifNoIndex then net.netifGetByIndex pcb.netifIdx
  else
    let netif :=
      if dstIp.isMulticast then
        if pcb.mcastIfindex ≠ netifNoIndex then net.netifGetByIndex pcb.mcastIfindex
        else if dstIp.isV4 ∧ pcb.mcastIp4 ≠ 0 ∧ pcb.mcastIp4 ≠ ip4AddrBroadcast then
          net.ip4RouteSrc pcb.localEnd.ip.ip2Ip4 pcb.mcastIp4
        else none
      else none
    match netif with
    | some netif => some netif
    | none => net.ipRoute pcb.localEnd.ip dstIp

/-! ### Sending -/

/-- What lwIP answers during one `cs_udp_char_sendto`. `udp_sendto_if_src` binds a pcb
whose port is 0, so it may leave other fields than it found. -/
structure UdpAnswers where
  alloc : Option Ptr
  net : Routing
  left : UdpRaw
  err : ErrT

/-- A call of lwIP by `cs_udp_char_sendto`; `udp_sendto_if_src` reads the source port
from the pcb and is given the source address. -/
inductive UdpCall
  | pbufAlloc (len : Nat) (p : Option Ptr)
  | sendtoIfSrc (p : Ptr) (chain : List Pbuf) (src dst : Endpoint) (netif : Option Netif)
  | pbufFree (p : Ptr)
  deriving DecidableEq, Repr

/-- The effects of a call: the pcb it leaves, the calls of lwIP, and the result. -/
structure UdpRun (α : Type) where
  upcb : UdpRaw
  calls : List UdpCall
  ret : α
  deriving Repr

/-- `cs_udp_sendto`. -/
def csUdpSendto (upcb : UdpRaw) (p : Ptr) (chain : List Pbuf) (dst : Endpoint)
    (ans : UdpAnswers) : UdpRun ErrT where
  upcb := ans.left
  calls := [.sendtoIfSrc p chain upcb.localEnd dst (csGetCurrentNetif ans.net upcb dst.ip)]
  ret := ans.err

/-- `cs_udp_char_sendto`. What `cs_udp_sendto` returns is discarded. -/
def csUdpCharSendto (lwip : Lwip) (upcb : UdpRaw) (laddr raddr : Endpoint) (buf : Bytes)
    (bufLen : CInt) (ans : UdpAnswers) : UdpRun Nat :=
  match ans.alloc with
  | none => { upcb := upcb, calls := [.pbufAlloc bufLen.toU16 none], ret := 1 }
  | some p =>
      let old := upcb.localEnd
      let sent := csUdpSendto { upcb with localEnd := laddr } p (charPbuf lwip buf bufLen) raddr ans
      { upcb := { sent.upcb with localEnd := old }
        calls := .pbufAlloc bufLen.toU16 (some p) :: (sent.calls ++ [.pbufFree p])
        ret := 0 }

/-- The datagram handed to `udp_sendto_if_src`, with its source and destination. -/
def UdpCall.sent : UdpCall → Option (Endpoint × Endpoint × List Pbuf)
  | .sendtoIfSrc _ chain src dst _ => some (src, dst, chain)
  | _ => none

/-- The pbuf a call obtained. -/
def UdpCall.allocated : UdpCall → Option Ptr
  | .pbufAlloc _ p => p
  | _ => none

/-- The pbuf a call gave back. -/
def UdpCall.freed : UdpCall → Option Ptr
  | .pbufFree p => some p
  | _ => none

/-- The pbuf a call is given. -/
def UdpCall.given : UdpCall → Option Ptr
  | .sendtoIfSrc p .. | .pbufFree p => some p
  | _ => none

/-- A pbuf is used and freed while it is the one that was obtained and not yet freed. -/
def Held (before : List UdpCall) (call : UdpCall) : Prop :=
  ∀ p, call.given = some p →
    select UdpCall.allocated before = select UdpCall.freed before ++ [p]

/-- Every pbuf obtained has been freed once, and was not used afterwards. -/
structure Balanced (calls : List UdpCall) : Prop where
  freed : select UdpCall.freed calls = select UdpCall.allocated calls
  held : Each Held calls

/-- Between `pbuf_alloc` and `pbuf_free`: `p` alone is not yet freed. -/
structure Holding (p : Ptr) (calls : List UdpCall) : Prop where
  out : select UdpCall.allocated calls = select UdpCall.freed calls ++ [p]
  held : Each Held calls

theorem balanced_nil : Balanced [] := ⟨rfl, each_nil _⟩

section

variable {calls : List UdpCall} {p : Ptr}

theorem Balanced.noPbuf (h : Balanced calls) (len : Nat) :
    Balanced (calls ++ [.pbufAlloc len none]) := by
  constructor
  · rw [select_snoc, select_snoc, h.freed]
    rfl
  · refine each_snoc.mpr ⟨h.held, ?_⟩
    rintro q ⟨⟩

theorem Balanced.pbufAlloc (h : Balanced calls) (len : Nat) (p : Ptr) :
    Holding p (calls ++ [.pbufAlloc len (some p)]) := by
  constructor
  · rw [select_snoc, select_snoc, h.freed, List.append_assoc]
    rfl
  · refine each_snoc.mpr ⟨h.held, ?_⟩
    rintro q ⟨⟩

theorem Holding.sendtoIfSrc (h : Holding p calls) (chain : List Pbuf) (src dst : Endpoint)
    (netif : Option Netif) : Holding p (calls ++ [.sendtoIfSrc p chain src dst netif]) := by
  constructor
  · rw [select_snoc, select_snoc, h.out, List.append_assoc, List.append_assoc]
    rfl
  · refine each_snoc.mpr ⟨h.held, ?_⟩
    rintro q ⟨⟩
    exact h.out

theorem Holding.pbufFree (h : Holding p calls) : Balanced (calls ++ [.pbufFree p]) := by
  constructor
  · rw [select_snoc, select_snoc, h.out]
    exact (List.append_nil _).symm
  · refine each_snoc.mpr ⟨h.held, ?_⟩
    rintro q ⟨⟩
    exact h.out

end

section

variable (lwip : Lwip) (upcb : UdpRaw) (laddr raddr : Endpoint) (buf : Bytes) (bufLen : CInt)
  (ans : UdpAnswers)

/-- The early exit and the send alike leave the local address as it was. -/
theorem csUdpCharSendto_localEnd :
    (csUdpCharSendto lwip upcb laddr raddr buf bufLen ans).upcb.localEnd = upcb.localEnd := by
  rw [csUdpCharSendto]
  cases ans.alloc <;> rfl

/-- With a pbuf one datagram is sent, between the endpoints of the call. -/
theorem csUdpCharSendto_sent :
    select UdpCall.sent (csUdpCharSendto lwip upcb laddr raddr buf bufLen ans).calls =
      if ans.alloc.isSome then [(laddr, raddr, charPbuf lwip buf bufLen)] else [] := by
  rw [csUdpCharSendto]
  cases ans.alloc <;> rfl

/-- The pbuf is freed once on the path that obtained it, after the send. -/
theorem Balanced.charSendto {calls : List UdpCall} (h : Balanced calls) :
    Balanced (calls ++ (csUdpCharSendto lwip upcb laddr raddr buf bufLen ans).calls) := by
  rw [csUdpCharSendto]
  cases ans.alloc with
  | none => exact h.noPbuf _
  | some p =>
      have hfreed := ((h.pbufAlloc bufLen.toU16 p).sendtoIfSrc (charPbuf lwip buf bufLen) laddr
        raddr (csGetCurrentNetif ans.net { upcb with localEnd := laddr } raddr.ip)).pbufFree
      rw [List.append_assoc, List.append_assoc] at hfreed
      exact hfreed

/-- The result tells whether there was a pbuf, and nothing of `udp_sendto_if_src`. -/
theorem csUdpCharSendto_ret :
    (csUdpCharSendto lwip upcb laddr raddr buf bufLen ans).ret =
      if ans.alloc.isSome then 0 else 1 := by
  rw [csUdpCharSendto]
  cases ans.alloc <;> rfl

end

end LwipCs
