import Mathlib.Data.List.Basic

/-!
# Addresses as the bridge exports them

`ip_addr_t` keeps its words in network byte order. `cs_ip_get` copies the octets
of an IPv4 address from memory, and extracts those of an IPv6 address with
`(char)lwip_htonl(word) >> k`: the cast binds first, so the shift acts on one
promoted `char`. Whether `char` is signed depends on the target.

The Go side formats the exported bytes with the `net` package. The text of a
remote UDP endpoint is the key of its flow.
-/

namespace LwipCs

abbrev Bytes := List UInt8

/-- `ip_addr_t`, each word as it is read from memory on a little-endian host. -/
inductive IpAddr
  | v4 (addr : BitVec 32)
  | v6 (addr0 addr1 addr2 addr3 : BitVec 32)
  deriving DecidableEq, Repr

/-- An address and a port. -/
structure Endpoint where
  ip : IpAddr
  port : UInt16
  deriving DecidableEq, Repr

/-- The octet at a memory offset, `ip4_addrN_val`. -/
def octet (x : BitVec 32) (i : Nat) : UInt8 := ⟨x.extractLsb' (8 * i) 8⟩

/-- What the C code is compiled for: whether its `char` is signed, and the `lwip_htonl` of a
little-endian host, which turns the octets of a word around. -/
structure Host where
  signedChar : Bool
  lwipHtonl : BitVec 32 → BitVec 32
  octet_lwipHtonl : ∀ word i, i < 4 → octet (lwipHtonl word) i = octet word (3 - i)

/-- `(char)x >> k` stored back into a `char`: narrow, promote to `int`, shift
arithmetically, narrow. -/
def charShr (signedChar : Bool) (x : BitVec 32) (k : Nat) : UInt8 :=
  let c : BitVec 8 := x.setWidth 8
  let promoted : BitVec 32 := if signedChar then c.signExtend 32 else c.setWidth 32
  ⟨(promoted.sshiftRight k).setWidth 8⟩

/-- The four bytes `cs_ip_get` stores for one IPv6 word. -/
def csIpWord (host : Host) (word : BitVec 32) : Bytes :=
  [charShr host.signedChar (host.lwipHtonl word) 24,
    charShr host.signedChar (host.lwipHtonl word) 16,
    charShr host.signedChar (host.lwipHtonl word) 8,
    charShr host.signedChar (host.lwipHtonl word) 0]

def csIpLen : IpAddr → Nat
  | .v6 .. => 16
  | .v4 _ => 4

def csIpGet (host : Host) : IpAddr → Bytes
  | .v6 addr0 addr1 addr2 addr3 =>
      csIpWord host addr0 ++ csIpWord host addr1 ++ csIpWord host addr2 ++ csIpWord host addr3
  | .v4 addr => [octet addr 0, octet addr 1, octet addr 2, octet addr 3]

theorem csIpGet_length (host : Host) (addr : IpAddr) :
    (csIpGet host addr).length = csIpLen addr := by
  cases addr <;> rfl

/-! ### Texts of the `net` package -/

/-- The longest run of at least two zero groups, the first among equals. -/
def longestZeroRun (groups : List Nat) : Option (Nat × Nat) :=
  let best := (List.range groups.length).foldl (fun best i =>
    let run := ((groups.drop i).takeWhile (· == 0)).length
    if best.2 < run then (i, run) else best) (0, 0)
  if best.2 < 2 then none else some best

/-- The eight 16-bit groups of sixteen octets. -/
def groups : Bytes → List Nat
  | a :: b :: rest => (a.toNat * 256 + b.toNat) :: groups rest
  | _ => []

def hexGroups (gs : List Nat) : List Char :=
  List.intercalate [':'] (gs.map (Nat.toDigits 16))

def dotted (ip : Bytes) : List Char :=
  List.intercalate ['.'] (ip.map fun o => Nat.toDigits 10 o.toNat)

/-- `net.IP.String` on four and on sixteen octets; an IPv4-mapped address is
written as the IPv4 address. -/
def ipString (ip : Bytes) : List Char :=
  if ip.length = 4 then dotted ip
  else if ip.take 12 = List.replicate 10 0 ++ [255, 255] then dotted (ip.drop 12)
  else match longestZeroRun (groups ip) with
    | none => hexGroups (groups ip)
    | some (start, run) =>
        hexGroups ((groups ip).take start) ++ [':', ':'] ++
          hexGroups ((groups ip).drop (start + run))

/-- `net.JoinHostPort`. -/
def joinHostPort (host : List Char) (port : Nat) : List Char :=
  (if ':' ∈ host then ['['] ++ host ++ [']'] else host) ++ [':'] ++ Nat.toDigits 10 port

/-- A key of `udpPcbs`: the text of `net.UDPAddr`. -/
abbrev Key := List Char

/-- The key of a remote endpoint, from its exported octets. -/
def udpKey (host : Host) (remote : Endpoint) : Key :=
  joinHostPort (ipString (csIpGet host remote.ip)) remote.port.toNat

/-- The octets of a word the other way around. -/
def swap (word : BitVec 32) : BitVec 32 :=
  word.extractLsb' 0 8 ++ word.extractLsb' 8 8 ++ word.extractLsb' 16 8 ++ word.extractLsb' 24 8

theorem octet_swap (word : BitVec 32) (i : Nat) (hi : i < 4) :
    octet (swap word) i = octet word (3 - i) := by
  have hbits : (swap word).extractLsb' (8 * i) 8 = word.extractLsb' (8 * (3 - i)) 8 := by
    apply BitVec.eq_of_getLsbD_eq
    intro j hj
    simp only [swap, BitVec.getLsbD_extractLsb', BitVec.getLsbD_append, hj, decide_true,
      Bool.true_and]
    match i, hi with
    | 0, _ => simp [hj]
    | 1, _ =>
        have hlow : ¬8 + j < 8 := by omega
        have hat : 8 + j - 8 = j := by omega
        simp [hj, hlow, hat]
    | 2, _ =>
        have hlow : ¬16 + j < 8 := by omega
        have hnext : ¬16 + j - 8 < 8 := by omega
        have hat : 16 + j - 8 - 8 = j := by omega
        simp [hj, hlow, hnext, hat]
    | 3, _ =>
        have hlow : ¬24 + j < 8 := by omega
        have hnext : ¬24 + j - 8 < 8 := by omega
        have hthird : ¬24 + j - 8 - 8 < 8 := by omega
        have hat : 24 + j - 8 - 8 - 8 = j := by omega
        simp [hj, hlow, hnext, hthird, hat]
  exact congrArg UInt8.ofBitVec hbits

/-- A host whose `lwip_htonl` is `swap`. -/
def Host.swapping (signedChar : Bool) : Host := ⟨signedChar, swap, octet_swap⟩

example : udpKey (.swapping true) ⟨.v4 0x0100A8C0#32, 53⟩ =
    ['1', '9', '2', '.', '1', '6', '8', '.', '0', '.', '1', ':', '5', '3'] := by decide

end LwipCs
