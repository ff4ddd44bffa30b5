import LwipCs.Text.Fields
import LwipCs.Lwip.AddrExport

/-!
# What the text of an address tells

The texts of two addresses are equal exactly if the addresses are, an IPv4 address being the
IPv4-mapped one. The longest run of zero groups is left out of a text, but its place is marked and
its length is what the other groups leave. No exported IPv6 address is IPv4-mapped, as the octets
before the last of a word are all the same. So the key of a remote endpoint tells exactly its port,
its family and the exported octets.
-/

namespace LwipCs

/-! ### Groups -/

/-- The octets before those of an IPv4 address in the IPv6 form. -/
def v4InV6Prefix : Bytes := List.replicate 10 0 ++ [255, 255]

/-- `net.IP.To16`. -/
def to16 (ip : Bytes) : Bytes := if ip.length = 4 then v4InV6Prefix ++ ip else ip

theorem groups_length : ∀ ip : Bytes, (groups ip).length = ip.length / 2
  | [] => rfl
  | [_] => by simp [groups]
  | a :: b :: rest => by
      rw [groups, List.length_cons, groups_length rest, List.length_cons, List.length_cons]
      omega

/-- Two octets more of two addresses whose octets come in pairs. -/
theorem groups_inj {ip ip' : Bytes} (heven : ip.length % 2 = 0) (heven' : ip'.length % 2 = 0)
    (h : groups ip = groups ip') : ip = ip' := by
  induction ip using groups.induct generalizing ip' with
  | case1 a b rest ih =>
      obtain _ | ⟨a', _ | ⟨b', rest'⟩⟩ := ip'
      · simp [groups] at h
      · simp at heven'
      · simp only [groups, List.cons.injEq] at h
        obtain ⟨hgroup, hrest⟩ := h
        have ha : a.toNat < 256 := a.toNat_lt
        have hb : b.toNat < 256 := b.toNat_lt
        have ha' : a'.toNat < 256 := a'.toNat_lt
        have hb' : b'.toNat < 256 := b'.toNat_lt
        obtain rfl : a = a' := UInt8.toNat_inj.mp (by omega)
        obtain rfl : b = b' := UInt8.toNat_inj.mp (by omega)
        simp only [List.length_cons] at heven heven'
        rw [ih (by omega) (by omega) hrest]
  | case2 ip hshort =>
      have hlen := congrArg List.length h
      rw [groups_length, groups_length] at hlen
      obtain _ | ⟨a, _ | ⟨b, rest⟩⟩ := ip
      · apply (List.eq_nil_of_length_eq_zero _).symm
        simp only [List.length_nil] at hlen
        omega
      · simp at heven
      · exact absurd rfl (hshort a b rest)

/-- What is left out of a list of groups is a run of zeros. -/
theorem longestZeroRun_zeros {gs : List Nat} {start run : Nat}
    (h : longestZeroRun gs = some (start, run)) :
    gs = gs.take start ++ List.replicate run 0 ++ gs.drop (start + run) := by
  have hrun : run ≤ ((gs.drop start).takeWhile (· == 0)).length := by
    simp only [longestZeroRun] at h
    split at h
    · cases h
    · obtain h := Option.some.inj h
      have hbest : ∀ best : Nat × Nat, best = (start, run) →
          best.2 ≤ ((gs.drop best.1).takeWhile (· == 0)).length →
          run ≤ ((gs.drop start).takeWhile (· == 0)).length := by
        rintro best rfl hle
        exact hle
      apply hbest _ h
      apply List.foldlRecOn (motive := fun best : Nat × Nat =>
        best.2 ≤ ((gs.drop best.1).takeWhile (· == 0)).length)
      · exact Nat.zero_le _
      · intro best hle i _
        show (if _ then _ else best : Nat × Nat).2 ≤ _
        split
        · exact Nat.le_refl _
        · exact hle
  have hzeros : (gs.drop start).take run = List.replicate run 0 := by
    obtain ⟨rest, hrest⟩ := List.takeWhile_prefix (l := gs.drop start) (· == 0)
    rw [← hrest, List.take_append_of_le_length hrun]
    apply List.eq_replicate_iff.mpr
    refine ⟨by rw [List.length_take]; omega, ?_⟩
    intro g hg
    simpa using List.all_eq_true.mp List.all_takeWhile g (List.mem_of_mem_take hg)
  rw [List.append_assoc, ← hzeros, ← List.drop_drop, List.take_append_drop, List.take_append_drop]

/-! ### Texts -/

/-- An address of a length that `cs_ip_get` produces. -/
def IsAddr (ip : Bytes) : Prop := ip.length = 4 ∨ ip.length = 16

theorem dotted_eq (ip : Bytes) :
    dotted ip = List.intercalate ['.'] (Fields.numerals 10 (ip.map UInt8.toNat)) := by
  rw [dotted, Fields.numerals, List.map_map]
  rfl

theorem dotted_inj {ip ip' : Bytes} (hlen : ip.length = 4) (hlen' : ip'.length = 4)
    (h : dotted ip = dotted ip') : ip = ip' := by
  rw [dotted_eq, dotted_eq] at h
  have hne : ∀ {ip : Bytes}, ip.length = 4 → ip.map UInt8.toNat ≠ [] := by
    rintro ip hlen hnil
    rw [List.map_eq_nil_iff.mp hnil] at hlen
    exact absurd hlen (by decide)
  have hoctets := Fields.text_inj (by decide) (by decide) (by decide) (hne hlen) (hne hlen') h
  exact List.map_injective_iff.mpr (fun _ _ => UInt8.toNat_inj.mp) hoctets

theorem colon_not_mem_dotted (ip : Bytes) : ':' ∉ dotted ip := by
  rw [dotted_eq]
  exact Fields.not_mem_text (by decide) (by decide) (by decide) (by decide)

/-- The forms of a text: an IPv4 address, all groups, or the groups around a gap. -/
inductive TextOf (ip : Bytes) : Prop
  | dots (four : Bytes) (hlen : four.length = 4) (hip : to16 ip = v4InV6Prefix ++ four)
      (htext : ipString ip = dotted four)
  | all (hlen : ip.length = 16) (hsix : ip.take 12 ≠ v4InV6Prefix)
      (htext : ipString ip = List.intercalate [':'] (Fields.numerals 16 (groups ip)))
  | gap (left right : List Nat) (run : Nat) (hlen : ip.length = 16)
      (hsix : ip.take 12 ≠ v4InV6Prefix)
      (hgroups : groups ip = left ++ List.replicate run 0 ++ right)
      (htext : ipString ip = List.intercalate [':'] (Fields.gapped 16 left right))

theorem textOf {ip : Bytes} (h : IsAddr ip) : TextOf ip := by
  obtain hfour | hsixteen := h
  · apply TextOf.dots ip hfour
    · rw [to16, if_pos hfour]
    · rw [ipString, if_pos hfour]
  · have hnotFour : ip.length ≠ 4 := by omega
    by_cases hsix : ip.take 12 = v4InV6Prefix
    · apply TextOf.dots (ip.drop 12)
      · rw [List.length_drop, hsixteen]
      · rw [to16, if_neg hnotFour, ← hsix, List.take_append_drop]
      · rw [ipString, if_neg hnotFour]
        exact if_pos hsix
    · have hsix' : ¬ip.take 12 = List.replicate 10 0 ++ [255, 255] := hsix
      cases hrun : longestZeroRun (groups ip) with
      | none =>
          apply TextOf.all hsixteen hsix
          rw [ipString, if_neg hnotFour, if_neg hsix', hrun]
          rfl
      | some best =>
          obtain ⟨start, run⟩ := best
          apply TextOf.gap _ _ run hsixteen hsix (longestZeroRun_zeros hrun)
          rw [ipString, if_neg hnotFour, if_neg hsix', hrun, Fields.intercalate_gapped]
          rfl

theorem TextOf.colon {ip : Bytes} (h : TextOf ip) (hip : ∀ four, to16 ip ≠ v4InV6Prefix ++ four) :
    ':' ∈ ipString ip := by
  cases h with
  | dots four _ hfour _ => exact absurd hfour (hip four)
  | all hlen _ htext =>
      rw [htext]
      apply Fields.mem_text
      rw [groups_length]
      omega
  | gap left right run _ _ _ htext =>
      rw [htext, Fields.intercalate_gapped]
      simp

theorem to16_of_six {ip : Bytes} (hlen : ip.length = 16) : to16 ip = ip := by
  apply if_neg
  omega

theorem to16_ne_of_six {ip four : Bytes} (hlen : ip.length = 16)
    (hsix : ip.take 12 ≠ v4InV6Prefix) : to16 ip ≠ v4InV6Prefix ++ four := by
  intro h
  apply hsix
  rw [← to16_of_six hlen, h]
  exact List.take_left' rfl

/-- The text of an address tells its IPv6 form. -/
theorem ipString_inj {ip ip' : Bytes} (hip : IsAddr ip) (hip' : IsAddr ip')
    (h : ipString ip = ipString ip') : to16 ip = to16 ip' := by
  have hpairs : ∀ {ip : Bytes}, ip.length = 16 → ip.length % 2 = 0 := by
    intro ip hlen
    omega
  have hnonempty : ∀ {ip : Bytes}, ip.length = 16 → groups ip ≠ [] := by
    intro ip hlen hnil
    have hgroups := groups_length ip
    rw [hnil, hlen] at hgroups
    exact absurd hgroups (by decide)
  cases textOf hip with
  | dots four hlen hfour htext =>
      have hcolon : ':' ∉ ipString ip := htext ▸ colon_not_mem_dotted four
      cases textOf hip' with
      | dots four' hlen' hfour' htext' =>
          rw [htext, htext'] at h
          rw [hfour, hfour', dotted_inj hlen hlen' h]
      | all hlen' hsix' _ =>
          refine absurd (h ▸ (textOf hip').colon ?_) hcolon
          exact fun _ => to16_ne_of_six hlen' hsix'
      | gap _ _ _ hlen' hsix' _ _ =>
          refine absurd (h ▸ (textOf hip').colon ?_) hcolon
          exact fun _ => to16_ne_of_six hlen' hsix'
  | all hlen hsix htext =>
      cases textOf hip' with
      | dots four' _ _ htext' =>
          have hcolon := (textOf hip).colon fun _ => to16_ne_of_six hlen hsix
          rw [h, htext'] at hcolon
          exact absurd hcolon (colon_not_mem_dotted four')
      | all hlen' hsix' htext' =>
          rw [htext, htext'] at h
          have hgroups := Fields.text_inj (by decide) (by decide) (by decide) (hnonempty hlen)
            (hnonempty hlen') h
          rw [groups_inj (hpairs hlen) (hpairs hlen') hgroups]
      | gap _ _ _ _ _ _ htext' =>
          rw [htext, htext'] at h
          exact absurd h
            (Fields.text_ne_gappedText (by decide) (by decide) (by decide) (hnonempty hlen))
  | gap left right run hlen hsix hgroups htext =>
      cases textOf hip' with
      | dots four' _ _ htext' =>
          have hcolon := (textOf hip).colon fun _ => to16_ne_of_six hlen hsix
          rw [h, htext'] at hcolon
          exact absurd hcolon (colon_not_mem_dotted four')
      | all hlen' _ htext' =>
          rw [htext, htext'] at h
          exact absurd h.symm
            (Fields.text_ne_gappedText (by decide) (by decide) (by decide) (hnonempty hlen'))
      | gap left' right' run' hlen' _ hgroups' htext' =>
          rw [htext, htext'] at h
          obtain ⟨rfl, rfl⟩ := Fields.gappedText_inj (by decide) (by decide) (by decide) h
          -- the gap fills the groups up to eight
          have hcount := congrArg List.length hgroups
          have hcount' := congrArg List.length hgroups'
          rw [groups_length, hlen] at hcount
          rw [groups_length, hlen'] at hcount'
          simp only [List.length_append, List.length_replicate] at hcount hcount'
          obtain rfl : run = run' := by omega
          rw [groups_inj (hpairs hlen) (hpairs hlen') (hgroups.trans hgroups'.symm)]

theorem ipString_to16 (ip : Bytes) : ipString (to16 ip) = ipString ip := by
  by_cases hlen : ip.length = 4
  · have hlen16 : (v4InV6Prefix ++ ip).length ≠ 4 := by
      rw [List.length_append, hlen]
      decide
    have hsix : (v4InV6Prefix ++ ip).take 12 = List.replicate 10 0 ++ [255, 255] :=
      List.take_left' rfl
    have hdrop : (v4InV6Prefix ++ ip).drop 12 = ip := List.drop_left' rfl
    rw [to16, if_pos hlen, ipString, if_neg hlen16, if_pos hsix, hdrop, ipString, if_pos hlen]
  · rw [to16, if_neg hlen]

theorem ipString_eq_iff {ip ip' : Bytes} (hip : IsAddr ip) (hip' : IsAddr ip') :
    ipString ip = ipString ip' ↔ to16 ip = to16 ip' := by
  constructor
  · exact ipString_inj hip hip'
  · intro h
    rw [← ipString_to16 ip, h, ipString_to16]

/-- The host and the port of a text. -/
theorem joinHostPort_inj {host host' : List Char} {port port' : Nat}
    (h : joinHostPort host port = joinHostPort host' port') : host = host' ∧ port = port' := by
  -- the last colon of the text is the one before the port
  have hlast := congrArg List.reverse h
  simp only [joinHostPort, List.reverse_append, List.reverse_singleton, List.singleton_append]
    at hlast
  have hdigits : ∀ n, ':' ∉ (Nat.toDigits 10 n).reverse := by
    intro n hmem
    apply Digits.separator_not_mem (b := 10) (n := n) (c := ':') (by decide) (by decide) (by decide)
    exact List.mem_reverse.mp hmem
  obtain ⟨hport, hfront⟩ := Digits.append_cons_inj (hdigits port) (hdigits port') hlast
  have hfront := List.reverse_injective hfront
  refine ⟨?_, Digits.toDigits_inj (by decide) (by decide) (List.reverse_injective hport)⟩
  split at hfront
  · rename_i hcolon
    split at hfront
    · simpa using hfront
    · rename_i hcolon'
      refine absurd ?_ hcolon'
      rw [← hfront]
      simp [hcolon]
  · rename_i hcolon
    split at hfront
    · rename_i hcolon'
      refine absurd ?_ hcolon
      rw [hfront]
      simp [hcolon']
    · exact hfront

/-! ### Keys -/

theorem csIpGet_isAddr (host : Host) (addr : IpAddr) : IsAddr (csIpGet host addr) := by
  rw [IsAddr, csIpGet_length]
  cases addr with
  | v4 => exact Or.inl rfl
  | v6 => exact Or.inr rfl

/-- In an exported word the octets before the last are the same. -/
theorem csIpGet_take_ne (host : Host) (addr0 addr1 addr2 addr3 : BitVec 32) :
    (csIpGet host (.v6 addr0 addr1 addr2 addr3)).take 12 ≠ v4InV6Prefix := by
  intro h
  simp only [csIpGet, csIpWord_eq] at h
  have hninth := congrArg (·[8]?) h
  have heleventh := congrArg (·[10]?) h
  simp [v4InV6Prefix] at hninth heleventh
  rw [hninth] at heleventh
  exact absurd heleventh (by decide)

/-- Two remote endpoints that have the same exported octets. -/
def Endpoint.Alike (a b : Endpoint) : Prop :=
  a.port = b.port ∧ csIpLen a.ip = csIpLen b.ip ∧ exportedOctets a.ip = exportedOctets b.ip

instance (a b : Endpoint) : Decidable (a.Alike b) := inferInstanceAs (Decidable (_ ∧ _ ∧ _))

theorem to16_csIpGet_eq_iff (host : Host) (addr addr' : IpAddr) :
    to16 (csIpGet host addr) = to16 (csIpGet host addr') ↔
      csIpLen addr = csIpLen addr' ∧ exportedOctets addr = exportedOctets addr' := by
  have hfour : ∀ a : BitVec 32, to16 (csIpGet host (.v4 a)) =
      v4InV6Prefix ++ csIpGet host (.v4 a) := fun a => if_pos rfl
  have hsix : ∀ a b c d : BitVec 32, (csIpGet host (.v6 a b c d)).length = 16 :=
    fun a b c d => csIpGet_length host (.v6 a b c d)
  have hmixed : ∀ a b c d e : BitVec 32, to16 (csIpGet host (.v6 a b c d)) ≠
      to16 (csIpGet host (.v4 e)) := by
    intro a b c d e
    rw [hfour]
    exact to16_ne_of_six (hsix a b c d) (csIpGet_take_ne host a b c d)
  cases addr with
  | v4 e =>
      cases addr' with
      | v4 e' =>
          rw [hfour, hfour]
          simp [csIpLen, exportedOctets, csIpGet, wordOctets]
      | v6 a b c d => exact iff_of_false (hmixed a b c d e).symm (by simp [csIpLen])
  | v6 a b c d =>
      cases addr' with
      | v4 e => exact iff_of_false (hmixed a b c d e) (by simp [csIpLen])
      | v6 a' b' c' d' =>
          have hlen : csIpLen (.v6 a b c d) = csIpLen (.v6 a' b' c' d') := rfl
          rw [to16_of_six (hsix a b c d), to16_of_six (hsix a' b' c' d'),
            csIpGet_eq_iff host hlen]
          exact (and_iff_right hlen).symm

/-- Two remote endpoints have one key exactly if they are alike. -/
theorem udpKey_eq_iff (host : Host) (a b : Endpoint) :
    udpKey host a = udpKey host b ↔ a.Alike b := by
  have hport : a.port.toNat = b.port.toNat ↔ a.port = b.port := UInt16.toNat_inj
  have hhost : ipString (csIpGet host a.ip) = ipString (csIpGet host b.ip) ↔
      csIpLen a.ip = csIpLen b.ip ∧ exportedOctets a.ip = exportedOctets b.ip :=
    (ipString_eq_iff (csIpGet_isAddr ..) (csIpGet_isAddr ..)).trans (to16_csIpGet_eq_iff ..)
  rw [Endpoint.Alike, ← hport, ← hhost]
  constructor
  · intro h
    obtain ⟨hhosts, hports⟩ := joinHostPort_inj h
    exact ⟨hports, hhosts⟩
  · rintro ⟨hports, hhosts⟩
    rw [udpKey, udpKey, hhosts, hports]

end LwipCs
