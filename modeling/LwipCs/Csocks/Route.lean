import LwipCs.Bridge.State
import LwipCs.Text.Digits

/-!
# The processors of package csocks

A processor is handed a connection and a target text. `SchemeDistProcessor` and
`PortDistProcessor` choose the next one by the parsed target, `PACProcessor`
chooses between the proxy and the direct connection, by the host `proxy` and by
the addresses that `DNSRecordProcessor` has seen in DNS answers.

`url.Parse` and `dns.Msg.Unpack` are parameters.
-/

namespace LwipCs

namespace Csocks

abbrev Text := List Char

/-- `net.IP`, the octets of an IPv4 or IPv6 address. -/
structure NetIP where
  octets : Bytes
  valid : octets.length = 4 ∨ octets.length = 16
  deriving DecidableEq, Repr

/-- `IP.String`. -/
def NetIP.text (ip : NetIP) : Text := ipString ip.octets

/-- A record of the answer section of a DNS message. -/
inductive Answer
  | a (name : Text) (ip : NetIP)
  | aaaa (name : Text) (ip : NetIP)
  | other (name : Text)
  deriving DecidableEq, Repr

/-- `dns.Msg`: the names of the questions, and the answers. -/
structure Msg where
  question : List Text
  answer : List Answer
  deriving DecidableEq, Repr

/-- `url.URL`, with the results of `Hostname` and `Port`. -/
structure Url where
  scheme : Text
  host : Text
  hostname : Text
  port : Text
  deriving DecidableEq, Repr

/-- The two functions of other packages, `none` for an error. -/
structure Lib where
  unpack : Bytes → Option Msg
  parse : Text → Option Url

/-! ### DNSRecordProcessor -/

/-- `allIP` maps the text of an address to the name it was an answer for. -/
structure DNSRecordProcessor where
  allIP : Text → Option Text

namespace DNSRecordProcessor

def new : DNSRecordProcessor := ⟨fun _ => none⟩

def record (d : DNSRecordProcessor) (key val : Text) : DNSRecordProcessor :=
  ⟨Function.update d.allIP key (some val)⟩

def isRecorded (d : DNSRecordProcessor) (key : Text) : Bool := (d.allIP key).isSome

/-- The loop of `DNSRecordConn.Write` over the answers. -/
def recordAnswers (d : DNSRecordProcessor) : List Answer → DNSRecordProcessor
  | [] => d
  | .a name ip :: rest => (d.record ip.text name).recordAnswers rest
  | _ :: rest => d.recordAnswers rest

/-- What `DNSRecordConn.Write` does before it writes to its base. -/
def recordMsg (d : DNSRecordProcessor) (lib : Lib) (p : Bytes) : DNSRecordProcessor :=
  match lib.unpack p with
  | some msg => d.recordAnswers msg.answer
  | none => d

end DNSRecordProcessor

/-! ### Distribution -/

/-- Why a `ProcConn` fails before it reaches a connection. -/
inductive ProcError
  | parse
  | notExist (target : Text)
  deriving DecidableEq, Repr

/-- Where a connection is handed on to. -/
inductive Route
  | proxy
  | direct
  | dns
  | failed (err : ProcError)
  deriving DecidableEq, Repr

/-- `core.Processor`. -/
abbrev Processor := Text → Route

def Url.isProxy (u : Url) : Bool := u.host = ['p', 'r', 'o', 'x', 'y']

def pacProcessor (lib : Lib) (record : DNSRecordProcessor) : Processor := fun target =>
  match lib.parse target with
  | none => .failed .parse
  | some u => if u.isProxy || record.isRecorded u.hostname then .proxy else .direct

def portDistProcessor (lib : Lib) (handlers : List (Text × Processor)) : Processor := fun target =>
  match lib.parse target with
  | none => .failed .parse
  | some u =>
      match handlers.lookup u.port with
      | some h => h target
      | none =>
          match handlers.lookup ['*'] with
          | some h => h target
          | none => .failed (.notExist target)

def schemeDistProcessor (lib : Lib) (handlers : List (Text × Processor)) : Processor :=
  fun target =>
    match lib.parse target with
    | none => .failed .parse
    | some u =>
        match handlers.lookup u.scheme with
        | some h => h target
        | none => .failed (.notExist target)

/-- The processors `NewLwipHandler` puts together. -/
def newLwipHandler (lib : Lib) (record : DNSRecordProcessor) : Processor :=
  let pac := pacProcessor lib record
  let port := portDistProcessor lib [(['5', '3'], fun _ => .dns), (['*'], pac)]
  schemeDistProcessor lib [(['t', 'c', 'p'], pac), (['u', 'd', 'p'], port)]

/-- `PCB.Type`. -/
def typeText : PcbType → Text
  | .tcp => ['t', 'c', 'p']
  | .udp => ['u', 'd', 'p']

/-- The target of `OnAccept`, from the address `LocalAddr` reports. -/
def acceptTarget (type : PcbType) (ip : NetIP) (port : UInt16) : Text :=
  typeText type ++ [':', '/', '/'] ++ joinHostPort ip.text port.toNat

/-- `LwipHandler.OnAccept`. -/
def onAccept (lib : Lib) (record : DNSRecordProcessor) (type : PcbType) (ip : NetIP)
    (port : UInt16) : Route :=
  newLwipHandler lib record (acceptTarget type ip port)

/-- `url.Parse` takes the targets of `OnAccept` apart again. -/
def Lib.ParsesAddrs (lib : Lib) : Prop :=
  ∀ type ip port, lib.parse (acceptTarget type ip port) =
    some ⟨typeText type, joinHostPort ip.text port.toNat, ip.text, Nat.toDigits 10 port.toNat⟩

/-! ### The verdicts -/

section

variable {lib : Lib} {record : DNSRecordProcessor} {type : PcbType} {ip : NetIP} {port : UInt16}

/-- A host with a port is not the host `proxy`. -/
theorem joinHostPort_ne_proxy (host : Text) (n : Nat) :
    joinHostPort host n ≠ ['p', 'r', 'o', 'x', 'y'] := by
  intro h
  have hmem : ':' ∈ joinHostPort host n := by simp [joinHostPort]
  rw [h] at hmem
  simp at hmem

theorem pacProcessor_accept (h : lib.ParsesAddrs) :
    pacProcessor lib record (acceptTarget type ip port) =
      if record.isRecorded ip.text then .proxy else .direct := by
  have hhost := joinHostPort_ne_proxy ip.text port.toNat
  simp [pacProcessor, h type ip port, Url.isProxy, hhost]

/-- A port other than 53 is written neither as `53` nor as `*`. -/
theorem port_digits (h : port ≠ 53) : (Nat.toDigits 10 port.toNat == ['5', '3']) = false ∧
    (Nat.toDigits 10 port.toNat == ['*']) = false := by
  constructor
  · apply beq_false_of_ne
    intro hdigits
    have hdigits : Nat.toDigits 10 port.toNat = Nat.toDigits 10 53 := hdigits
    have hport := Digits.toDigits_inj (by decide) (by decide) hdigits
    exact h (UInt16.toNat_inj.mp hport)
  · apply beq_false_of_ne
    intro hdigits
    apply Digits.separator_not_mem (b := 10) (n := port.toNat) (c := '*') (by decide) (by decide)
      (by decide)
    simp [hdigits]

/-- A TCP connection, and a UDP flow to a port other than 53, is routed by the record. -/
theorem onAccept_eq (h : lib.ParsesAddrs) (hlater : type = .tcp ∨ port ≠ 53) :
    onAccept lib record type ip port =
      if record.isRecorded ip.text then .proxy else .direct := by
  have hpac : pacProcessor lib record (acceptTarget type ip port) =
      if record.isRecorded ip.text then .proxy else .direct := pacProcessor_accept h
  cases type with
  | tcp =>
      simpa [onAccept, newLwipHandler, schemeDistProcessor, h .tcp ip port, typeText] using hpac
  | udp =>
      have hport : port ≠ 53 := by simpa using hlater
      obtain ⟨h53, hstar⟩ := port_digits hport
      have hany : (['*'] == ['5', '3'] : Bool) = false := by decide
      simpa [onAccept, newLwipHandler, schemeDistProcessor, portDistProcessor,
        h .udp ip port, typeText, List.lookup_cons, List.lookup_nil, h53, hstar, hany] using hpac

end

end Csocks

end LwipCs
