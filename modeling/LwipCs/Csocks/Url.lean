import LwipCs.Csocks.Route

/-!
# The other packages, on texts and messages as they occur

`urlParse` is `url.Parse`, with `Hostname` and `Port`, on a text made of a scheme,
`://` and a host. It recovers the address of every target `OnAccept` builds, so
the assumption on `url.Parse` can be met. `dnsUnpack` knows two messages, byte by
byte: a question for one name and a response to it.
-/

namespace LwipCs

namespace Csocks

/-- The host and the port after the last colon, if a port stands there. -/
def splitHostPort (host : Text) : Text × Text :=
  let port := (host.reverse.takeWhile (· ≠ ':')).reverse
  match host.reverse.dropWhile (· ≠ ':') with
  | [] => (host, [])
  | _ :: front => if port.all Char.isDigit then (front.reverse, port) else (host, [])

/-- The brackets around an IPv6 address. -/
def stripBrackets : Text → Text
  | '[' :: inner => if inner.getLast? = some ']' then inner.dropLast else '[' :: inner
  | host => host

def urlParse (text : Text) : Option Url :=
  match text.dropWhile (· ≠ ':') with
  | ':' :: '/' :: '/' :: host =>
      let (name, port) := splitHostPort host
      some ⟨text.takeWhile (· ≠ ':'), host, stripBrackets name, port⟩
  | _ => none

/-! ### Hosts of addresses -/

section

variable {c : Char} {host : Text} {n : Nat}

theorem not_mem_intercalate {sep : Text} {parts : List Text} (hsep : c ∉ sep)
    (hparts : ∀ l ∈ parts, c ∉ l) : c ∉ List.intercalate sep parts := by
  induction parts with
  | nil => simp
  | cons l rest ih =>
      have hl := hparts l List.mem_cons_self
      have hrest := ih fun l' hl' => hparts l' (List.mem_cons_of_mem _ hl')
      cases rest with
      | nil => simpa using hl
      | cons l' more =>
          rw [List.intercalate_cons_cons]
          simp only [List.mem_append, not_or]
          exact ⟨⟨hl, hsep⟩, hrest⟩

theorem bracket_not_mem_toDigits {b : Nat} (hb : 1 < b) (hb' : b ≤ 16) :
    '[' ∉ Nat.toDigits b n := Digits.separator_not_mem hb hb' (by decide)

theorem bracket_not_mem_dotted (ip : Bytes) : '[' ∉ dotted ip := by
  apply not_mem_intercalate (by decide)
  simp only [List.mem_map]
  rintro _ ⟨o, _, rfl⟩
  exact bracket_not_mem_toDigits (by decide) (by decide)

theorem bracket_not_mem_hexGroups (gs : List Nat) : '[' ∉ hexGroups gs := by
  apply not_mem_intercalate (by decide)
  simp only [List.mem_map]
  rintro _ ⟨g, _, rfl⟩
  exact bracket_not_mem_toDigits (by decide) (by decide)

/-- The text of an address has no bracket. -/
theorem bracket_not_mem_ipString (ip : Bytes) : '[' ∉ ipString ip := by
  unfold ipString
  split
  · exact bracket_not_mem_dotted _
  · split
    · exact bracket_not_mem_dotted _
    · split
      · exact bracket_not_mem_hexGroups _
      · simp only [List.mem_append, not_or]
        exact ⟨⟨bracket_not_mem_hexGroups _, by decide⟩, bracket_not_mem_hexGroups _⟩

/-- The part of `host:port` before the colon. -/
def bracketed (host : Text) : Text := if ':' ∈ host then ['['] ++ host ++ [']'] else host

theorem stripBrackets_bracketed (h : '[' ∉ host) : stripBrackets (bracketed host) = host := by
  unfold bracketed
  split
  · simp [stripBrackets]
  · cases host with
    | nil => rfl
    | cons c rest =>
        have hc : c ≠ '[' := by
          rintro rfl
          exact h List.mem_cons_self
        simp [stripBrackets, hc]

/-- The port is found after the last colon. -/
theorem splitHostPort_join (front : Text) (n : Nat) :
    splitHostPort (front ++ ':' :: Nat.toDigits 10 n) = (front, Nat.toDigits 10 n) := by
  have hrev : (front ++ ':' :: Nat.toDigits 10 n).reverse =
      (Nat.toDigits 10 n).reverse ++ ':' :: front.reverse := by simp
  have hdigits : ∀ c ∈ (Nat.toDigits 10 n).reverse, decide (c ≠ ':') = true := by
    intro c hc
    apply decide_eq_true
    rintro rfl
    exact Digits.separator_not_mem (by decide) (by decide) (by decide) (List.mem_reverse.mp hc)
  have hport : (Nat.toDigits 10 n).all Char.isDigit = true := by
    apply List.all_eq_true.mpr
    intro c hc
    exact Nat.isDigit_of_mem_toDigits (by decide) (by decide) hc
  simp only [splitHostPort]
  rw [hrev, List.takeWhile_append_of_pos hdigits, List.dropWhile_append_of_pos hdigits]
  simp [hport]

/-- `urlParse` recovers the address from the targets of `OnAccept`. -/
theorem urlParse_acceptTarget (type : PcbType) (ip : NetIP) (port : UInt16) :
    urlParse (acceptTarget type ip port) =
      some ⟨typeText type, joinHostPort ip.text port.toNat, ip.text,
        Nat.toDigits 10 port.toNat⟩ := by
  have hjoin : joinHostPort ip.text port.toNat =
      bracketed ip.text ++ ':' :: Nat.toDigits 10 port.toNat := by
    simp [joinHostPort, bracketed]
  have hscheme : ∀ c ∈ typeText type, decide (c ≠ ':') = true := by
    cases type <;> simp [typeText]
  have hstrip : stripBrackets (bracketed ip.text) = ip.text :=
    stripBrackets_bracketed (bracket_not_mem_ipString ip.octets)
  simp only [urlParse, acceptTarget, List.append_assoc]
  rw [List.dropWhile_append_of_pos hscheme, List.takeWhile_append_of_pos hscheme]
  simp only [List.cons_append, List.nil_append]
  rw [hjoin]
  simp [splitHostPort_join, hstrip]

end

/-! ### Two messages -/

/-- A question for the name `a.` of the type A. -/
def question : Bytes :=
  [0, 1, 1, 0, 0, 1, 0, 0, 0, 0, 0, 0, 1, 97, 0, 0, 1, 0, 1]

/-- The response that the name has the address 1.2.3.4. -/
def response : Bytes :=
  [0, 1, 129, 128, 0, 1, 0, 1, 0, 0, 0, 0, 1, 97, 0, 0, 1, 0, 1, 192, 12, 0, 1, 0, 1, 0, 0, 0, 60,
    0, 4, 1, 2, 3, 4]

def dnsUnpack (p : Bytes) : Option Msg :=
  if p = question then some ⟨[['a', '.']], []⟩
  else if p = response then
    some ⟨[['a', '.']], [.a ['a', '.'] ⟨[1, 2, 3, 4], Or.inl rfl⟩]⟩
  else none

/-- The two functions as they act on these inputs. -/
def sampleLib : Lib := ⟨dnsUnpack, urlParse⟩

theorem sampleLib_parsesAddrs : sampleLib.ParsesAddrs := urlParse_acceptTarget

end Csocks

end LwipCs
