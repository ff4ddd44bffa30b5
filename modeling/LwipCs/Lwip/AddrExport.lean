import LwipCs.Lwip.Addr

/-!
# Which addresses are exported as they are

An exported IPv6 word is the last octet of the word in its last byte, and in the three
bytes before it what the promotion of that `char` put above it. So a word comes through
exactly if its first three octets are such a filling.
-/

namespace LwipCs

/-- The octets of a word as it lies in memory. -/
def wordOctets (word : BitVec 32) : Bytes :=
  [octet word 0, octet word 1, octet word 2, octet word 3]

/-- The octets of an address in network order. -/
def IpAddr.octets : IpAddr → Bytes
  | .v6 addr0 addr1 addr2 addr3 =>
      wordOctets addr0 ++ wordOctets addr1 ++ wordOctets addr2 ++ wordOctets addr3
  | .v4 addr => wordOctets addr

/-- What the promotion of a `char` to `int` puts above it. -/
def charFill (signedChar : Bool) (b : UInt8) : UInt8 :=
  if signedChar ∧ b.toBitVec.msb then 255 else 0

/-- The first three octets of the word fill up the last one. -/
def Filling (signedChar : Bool) (word : BitVec 32) : Prop :=
  octet word 0 = charFill signedChar (octet word 3) ∧
    octet word 1 = charFill signedChar (octet word 3) ∧
    octet word 2 = charFill signedChar (octet word 3)

instance (signedChar : Bool) (word : BitVec 32) : Decidable (Filling signedChar word) :=
  inferInstanceAs (Decidable (_ ∧ _ ∧ _))

/-- Every IPv4 address, and the IPv6 addresses all of whose words are filled up. -/
def Exportable (signedChar : Bool) : IpAddr → Prop
  | .v6 addr0 addr1 addr2 addr3 =>
      Filling signedChar addr0 ∧ Filling signedChar addr1 ∧ Filling signedChar addr2 ∧
        Filling signedChar addr3
  | .v4 _ => True

/-- The octets of an address on which its export depends. -/
def exportedOctets : IpAddr → Bytes
  | .v6 addr0 addr1 addr2 addr3 => [octet addr0 3, octet addr1 3, octet addr2 3, octet addr3 3]
  | .v4 addr => wordOctets addr

variable (host : Host)

/-- The cast to `char` keeps the last octet of the word. -/
theorem lwipHtonl_setWidth (word : BitVec 32) :
    (host.lwipHtonl word).setWidth 8 = word.extractLsb' 24 8 := by
  have hoctet := host.octet_lwipHtonl word 0 (by omega)
  have hbits : (host.lwipHtonl word).extractLsb' 0 8 = word.extractLsb' 24 8 :=
    congrArg UInt8.toBitVec hoctet
  rw [← hbits]
  exact BitVec.setWidth_eq_extractLsb' (by omega)

theorem signExtend_shift (b : BitVec 8) {k : Nat} (hk : 8 ≤ k) (hk' : k ≤ 24) :
    ((b.signExtend 32).sshiftRight k).setWidth 8 = if b.msb then 255#8 else 0#8 := by
  apply BitVec.eq_of_getLsbD_eq
  intro i hi
  have hfill : (if b.msb then 255#8 else 0#8).getLsbD i = b.msb := by
    cases b.msb with
    | true => exact (BitVec.getLsbD_allOnes (v := 8)).trans (decide_eq_true hi)
    | false => exact BitVec.getLsbD_zero
  have hin : k + i < 32 := by omega
  have hout : ¬k + i < 8 := by omega
  have hword : ¬32 ≤ i := by omega
  rw [hfill, BitVec.getLsbD_setWidth, BitVec.getLsbD_sshiftRight, BitVec.getLsbD_signExtend]
  simp [hi, hin, hout, hword]

theorem signExtend_narrow (b : BitVec 8) : (b.signExtend 32).setWidth 8 = b := by
  apply BitVec.eq_of_getLsbD_eq
  intro i hi
  have hword : i < 32 := by omega
  rw [BitVec.getLsbD_setWidth, BitVec.getLsbD_signExtend]
  simp [hi, hword]

theorem setWidth_shift (b : BitVec 8) {k : Nat} (hk : 8 ≤ k) (hk' : k ≤ 24) :
    ((b.setWidth 32).sshiftRight k).setWidth 8 = 0#8 := by
  apply BitVec.eq_of_getLsbD_eq
  intro i hi
  have hin : k + i < 32 := by omega
  have hout : 8 ≤ k + i := by omega
  have hword : ¬32 ≤ i := by omega
  rw [BitVec.getLsbD_setWidth, BitVec.getLsbD_sshiftRight, BitVec.getLsbD_setWidth,
    BitVec.getLsbD_zero]
  simp [hi, hin, hout, hword]

theorem charShr_zero (word : BitVec 32) :
    charShr host.signedChar (host.lwipHtonl word) 0 = octet word 3 := by
  simp only [charShr, lwipHtonl_setWidth, BitVec.sshiftRight_zero]
  cases host.signedChar with
  | true =>
      rw [if_pos rfl, signExtend_narrow]
      rfl
  | false =>
      rw [if_neg Bool.false_ne_true, BitVec.setWidth_setWidth_of_le _ (by omega),
        BitVec.setWidth_eq]
      rfl

theorem charShr_fill (word : BitVec 32) {k : Nat} (hk : 8 ≤ k) (hk' : k ≤ 24) :
    charShr host.signedChar (host.lwipHtonl word) k = charFill host.signedChar (octet word 3) := by
  simp only [charShr, lwipHtonl_setWidth]
  cases host.signedChar with
  | true =>
      rw [if_pos rfl, signExtend_shift _ hk hk']
      show (⟨if (word.extractLsb' 24 8).msb then 255#8 else 0#8⟩ : UInt8) =
        if true = true ∧ (word.extractLsb' 24 8).msb = true then 255 else 0
      cases (word.extractLsb' 24 8).msb <;> rfl
  | false =>
      rw [if_neg Bool.false_ne_true, setWidth_shift _ hk hk', charFill,
        if_neg fun h => Bool.false_ne_true h.1]
      rfl

theorem csIpWord_eq (word : BitVec 32) :
    csIpWord host word = [charFill host.signedChar (octet word 3),
      charFill host.signedChar (octet word 3), charFill host.signedChar (octet word 3),
      octet word 3] := by
  rw [csIpWord, charShr_zero, charShr_fill _ _ (by omega) (by omega),
    charShr_fill _ _ (by omega) (by omega), charShr_fill _ _ (by omega) (by omega)]

theorem csIpWord_octets_iff (word : BitVec 32) :
    csIpWord host word = wordOctets word ↔ Filling host.signedChar word := by
  rw [csIpWord_eq, wordOctets, Filling]
  simp [eq_comm]

/-- Four words of the same length are equal exactly if their concatenations are. -/
theorem append_four_iff {a b c d a' b' c' d' : Bytes} (ha : a.length = a'.length)
    (hb : b.length = b'.length) (hc : c.length = c'.length) :
    a ++ b ++ c ++ d = a' ++ b' ++ c' ++ d' ↔ a = a' ∧ b = b' ∧ c = c' ∧ d = d' := by
  constructor
  · intro h
    simp only [List.append_assoc] at h
    obtain ⟨hfirst, h⟩ := List.append_inj h ha
    obtain ⟨hsecond, h⟩ := List.append_inj h hb
    exact ⟨hfirst, hsecond, List.append_inj h hc⟩
  · rintro ⟨rfl, rfl, rfl, rfl⟩
    rfl

theorem csIpGet_octets_iff (addr : IpAddr) :
    csIpGet host addr = addr.octets ↔ Exportable host.signedChar addr := by
  cases addr with
  | v4 addr => exact iff_of_true rfl trivial
  | v6 addr0 addr1 addr2 addr3 =>
      simp only [csIpGet, IpAddr.octets, Exportable, ← csIpWord_octets_iff]
      exact append_four_iff rfl rfl rfl

theorem csIpWord_length (word word' : BitVec 32) :
    (csIpWord host word).length = (csIpWord host word').length := by
  simp only [csIpWord, List.length_cons, List.length_nil]

theorem csIpWord_inj (word word' : BitVec 32) :
    csIpWord host word = csIpWord host word' ↔ octet word 3 = octet word' 3 := by
  rw [csIpWord_eq, csIpWord_eq]
  constructor
  · intro h
    simpa using congrArg List.getLast? h
  · intro h
    rw [h]

/-- Two addresses of one family are exported as the same bytes exactly if they agree on the
octets that are exported. -/
theorem csIpGet_eq_iff {addr addr' : IpAddr}
    (h : csIpLen addr = csIpLen addr') :
    csIpGet host addr = csIpGet host addr' ↔
      exportedOctets addr = exportedOctets addr' := by
  cases addr with
  | v4 addr =>
      cases addr' with
      | v4 addr' => exact Iff.rfl
      | v6 => cases h
  | v6 addr0 addr1 addr2 addr3 =>
      cases addr' with
      | v4 => cases h
      | v6 addr0' addr1' addr2' addr3' =>
          simp only [csIpGet, exportedOctets]
          refine (append_four_iff (csIpWord_length ..) (csIpWord_length ..)
            (csIpWord_length ..)).trans ?_
          simp [csIpWord_inj]

/-- The export has the announced length; it is the address exactly if the address is
exportable, and it tells two addresses of one family apart exactly if the exported octets do. -/
theorem csIpGet_exports_iff (addr addr' : IpAddr)
    (h : csIpLen addr = csIpLen addr') :
    (csIpGet host addr).length = csIpLen addr ∧
      (csIpGet host addr = addr.octets ↔ Exportable host.signedChar addr) ∧
      ((addr ≠ addr' → csIpGet host addr ≠ csIpGet host addr') ↔
        (addr ≠ addr' → exportedOctets addr ≠ exportedOctets addr')) := by
  refine ⟨csIpGet_length host addr, csIpGet_octets_iff host addr, ?_⟩
  rw [Ne, Ne, Ne, csIpGet_eq_iff host h]

/-- An address all of whose words are small numbers, and an IPv4 address. -/
theorem csIpGet_exports_loopback :
    csIpGet (.swapping true) (.v6 0 0 0 0x01000000#32) = (IpAddr.v6 0 0 0 0x01000000#32).octets ∧
      csIpGet (.swapping false) (.v4 0x0100007F#32) = (IpAddr.v4 0x0100007F#32).octets :=
  ⟨(csIpGet_exports_iff (.swapping true) (.v6 0 0 0 0x01000000#32) (.v6 0 0 0 0) rfl).2.1.mpr
      ⟨by decide, by decide, by decide, by decide⟩,
    (csIpGet_exports_iff (.swapping false) (.v4 0x0100007F#32) (.v4 0) rfl).2.1.mpr trivial⟩

/-- `2001:db8::1` and `2001:db8::1:1` are exported as the same bytes, which are neither. -/
theorem csIpGet_not_octets :
    (csIpGet (.swapping true) (.v6 0xB80D0120#32 0 0 0x01000000#32) ≠
        (IpAddr.v6 0xB80D0120#32 0 0 0x01000000#32).octets ∧
      csIpGet (.swapping true) (.v6 0xB80D0120#32 0 0 0x01000000#32) =
        csIpGet (.swapping true) (.v6 0xB80D0120#32 0 0 0x01000100#32)) ∧
    (csIpGet (.swapping false) (.v6 0xB80D0120#32 0 0 0x01000000#32) ≠
        (IpAddr.v6 0xB80D0120#32 0 0 0x01000000#32).octets ∧
      csIpGet (.swapping false) (.v6 0xB80D0120#32 0 0 0x01000000#32) =
        csIpGet (.swapping false) (.v6 0xB80D0120#32 0 0 0x01000100#32)) ∧
    IpAddr.v6 0xB80D0120#32 0 0 0x01000000#32 ≠ .v6 0xB80D0120#32 0 0 0x01000100#32 := by
  decide

end LwipCs
