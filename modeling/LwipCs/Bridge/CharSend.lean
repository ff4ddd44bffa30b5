import LwipCs.Bridge.Output
import LwipCs.Lwip.UdpRaw

/-!
# What the send functions pass on

`Write` sets no upper bound on its buffer, and `tcpSend` and `udpSend` pass its full
length. `cs_tcp_char_send` and `cs_udp_char_sendto` return 0 once they have a pbuf; its
size is that length narrowed twice.
-/

namespace LwipCs

open Interleave

/-- A call of `cs_tcp_char_send` that returns 0 has passed on the whole buffer: what
`tcp_write` took of it for the connection is followed by what is left in `state->p`. -/
def TcpWhole (k : ConnId) (e : Ptr) (buf : Bytes) (before : Sys) (after : Sys × Nat) : Prop :=
  after.2 = 0 → ∃ wrote es, written k after.1.trace = written k before.trace ++ wrote ∧
    after.1.heap e = some es ∧ wrote ++ chainBytes es.p = buf

/-- A call of `cs_udp_char_sendto` that returns 0 has sent one pbuf, with the whole buffer. -/
def UdpWhole (buf : Bytes) (run : UdpRun Nat) : Prop :=
  run.ret = 0 → ∃ src dst chain, select UdpCall.sent run.calls = [(src, dst, chain)] ∧
    chainBytes chain = buf

/-- `cs_tcp_char_send` passes on what the pbuf holds. -/
theorem csTcpCharSend_passed (cfg : Config) (s : Sys) (a e : Ptr) {es : RawState} (buf : Bytes)
    {o : Outcomes} (hp : es.p = []) (halloc : o.alloc = true) :
    ∃ wrote es', written es.conn (s.csTcpCharSend cfg a e es buf o).1.trace =
        written es.conn s.trace ++ wrote ∧
      (s.csTcpCharSend cfg a e es buf o).1.heap e = some es' ∧
      wrote ++ chainBytes es'.p = accepted buf := by
  refine ⟨(csTcpRawSend cfg.lwip (charChain cfg.lwip buf) o.sndbuf o.writes).wrote.flatten,
    { es with p := (csTcpRawSend cfg.lwip (charChain cfg.lwip buf) o.sndbuf o.writes).p },
    ?_, ?_, ?_⟩
  · simp [Sys.csTcpCharSend, hp, halloc, Sys.rawSend, written, select, Event.wroteTo]
  · simp [Sys.csTcpCharSend, hp, halloc, Sys.rawSend]
  · rw [csTcpRawSend_bytes (charChain_single cfg.lwip buf), chainBytes_charChain]

/-- `cs_tcp_char_send` returns 0 exactly with nothing pending and a pbuf. -/
theorem csTcpCharSend_ret (cfg : Config) (s : Sys) (a e : Ptr) (es : RawState) (buf : Bytes)
    (o : Outcomes) :
    (s.csTcpCharSend cfg a e es buf o).2 = 0 ↔ es.p = [] ∧ o.alloc = true := by
  by_cases hp : es.p = []
  · cases halloc : o.alloc <;> simp [Sys.csTcpCharSend, hp, halloc]
  · simp [Sys.csTcpCharSend, hp]

theorem tcpWhole_iff (cfg : Config) (s : Sys) (a e : Ptr) (es : RawState) (buf : Bytes)
    (o : Outcomes) :
    TcpWhole es.conn e buf s (s.csTcpCharSend cfg a e es buf o) ↔
      buf.length < 2 ^ 16 ∨ es.p ≠ [] ∨ o.alloc = false := by
  rw [TcpWhole, csTcpCharSend_ret, ← accepted_eq_iff]
  constructor
  · intro hwhole
    by_cases hzero : es.p = [] ∧ o.alloc = true
    · left
      obtain ⟨wrote, es₁, hwrote, hheap, hbytes⟩ := hwhole hzero
      obtain ⟨wrote', es₂, hwrote', hheap', hbytes'⟩ :=
        csTcpCharSend_passed cfg s a e buf hzero.1 hzero.2
      obtain rfl : es₁ = es₂ := Option.some.inj (hheap.symm.trans hheap')
      obtain rfl : wrote = wrote' := List.append_cancel_left (hwrote.symm.trans hwrote')
      exact hbytes'.symm.trans hbytes
    · right
      rcases not_and_or.mp hzero with hp | halloc
      · exact Or.inl hp
      · exact Or.inr (Bool.not_eq_true _ ▸ halloc)
  · rintro (hall | hp | halloc) ⟨hnil, hsome⟩
    · obtain ⟨wrote, es₁, hwrote, hheap, hbytes⟩ := csTcpCharSend_passed cfg s a e buf hnil hsome
      exact ⟨wrote, es₁, hwrote, hheap, hbytes.trans hall⟩
    · exact absurd hnil hp
    · rw [halloc] at hsome
      cases hsome

theorem udpWhole_iff (lwip : Lwip) (upcb : UdpRaw) (laddr raddr : Endpoint) (buf : Bytes)
    (ans : UdpAnswers) :
    UdpWhole buf (csUdpCharSendto lwip upcb laddr raddr buf (cInt buf.length) ans) ↔
      buf.length < 2 ^ 16 ∨ ans.alloc = none := by
  have hbytes : chainBytes (charChain lwip buf) = accepted buf := chainBytes_charChain buf
  rw [UdpWhole, csUdpCharSendto_ret, csUdpCharSendto_sent, charPbuf_cInt, ← accepted_eq_iff,
    ← hbytes]
  cases ans.alloc with
  | none => simp
  | some p => simp

/-- The send functions pass on a buffer of any length below `2 ^ 16` whole, and no longer
one unless they report a failure. -/
theorem char_send_whole_iff (cfg : Config) (buf : Bytes) :
    (∀ (s : Sys) (a e : Ptr) (es : RawState) (o : Outcomes),
      TcpWhole es.conn e buf s (s.csTcpCharSend cfg a e es buf o) ↔
        buf.length < 2 ^ 16 ∨ es.p ≠ [] ∨ o.alloc = false) ∧
    ∀ (upcb : UdpRaw) (laddr raddr : Endpoint) (ans : UdpAnswers),
      UdpWhole buf (csUdpCharSendto cfg.lwip upcb laddr raddr buf (cInt buf.length) ans) ↔
        buf.length < 2 ^ 16 ∨ ans.alloc = none :=
  ⟨fun s a e es o => tcpWhole_iff cfg s a e es buf o,
    fun upcb laddr raddr ans => udpWhole_iff cfg.lwip upcb laddr raddr buf ans⟩

section

open Schedule

/-- A buffer of any length above 0 reaches `Send`. -/
theorem write_posts (b : UInt8) (rest : Bytes) :
    ∃ s, (bridge config).Reachable s ∧ s.loop = .send ⟨0, 0⟩ ∧ (s.bufs 0).data = b :: rest ∧
      s.heap 2 = some ⟨.accepted, 1, [], 0⟩ := by
  have hexec : ((bridge config).exec (fun _ _ => true) (Sys.init config)
      (accept ++ write (b :: rest) ++ [.loop fine, .take .send fine])).map
        (fun s => (s.loop, (s.bufs 0).data, s.heap 2)) =
      some (.send ⟨0, 0⟩, b :: rest, some ⟨.accepted, 1, [], 0⟩) := rfl
  obtain ⟨s, hs, hsame⟩ := Option.map_eq_some_iff.mp hexec
  obtain ⟨tr, hrun, _⟩ := Machine.Run.start.exec hs
  simp only [Prod.mk.injEq] at hsame
  exact ⟨s, ⟨tr, by simpa using hrun⟩, hsame.1, hsame.2.1, hsame.2.2⟩

/-- Of 65537 bytes given to `Write`, `cs_tcp_char_send` passes on one, and
`cs_udp_char_sendto` likewise; both return 0. -/
theorem char_send_truncates :
    (∃ s es, (bridge config).Reachable s ∧ s.loop = .send ⟨0, 0⟩ ∧
      (s.bufs 0).data = List.replicate 65537 0 ∧ s.heap 2 = some es ∧
      ¬ TcpWhole es.conn 2 (s.bufs 0).data s (s.csTcpCharSend config 1 2 es (s.bufs 0).data fine)) ∧
    ¬ UdpWhole (List.replicate 65537 0) (csUdpCharSendto .pool ⟨⟨0, 0, 0⟩, ⟨.v4 0, 7⟩⟩ ⟨.v4 1, 53⟩
      ⟨.v4 2, 4000⟩ (List.replicate 65537 0) (cInt 65537)
      ⟨some 1, ⟨fun _ => none, fun _ _ => some 1, fun _ _ => none⟩, ⟨⟨0, 0, 0⟩, ⟨.v4 1, 53⟩⟩,
        .ok⟩) := by
  have hlen : (List.replicate 65537 (0 : UInt8)).length = 65537 := List.length_replicate
  constructor
  · obtain ⟨s, hs, hloop, hdata, hheap⟩ := write_posts 0 (List.replicate 65536 0)
    rw [← List.replicate_succ] at hdata
    refine ⟨s, _, hs, hloop, hdata, hheap, ?_⟩
    rw [tcpWhole_iff, hdata, hlen]
    simp [fine]
  · have hudp := udpWhole_iff .pool ⟨⟨0, 0, 0⟩, ⟨.v4 0, 7⟩⟩ ⟨.v4 1, 53⟩ ⟨.v4 2, 4000⟩
      (List.replicate 65537 0)
      ⟨some 1, ⟨fun _ => none, fun _ _ => some 1, fun _ _ => none⟩, ⟨⟨0, 0, 0⟩, ⟨.v4 1, 53⟩⟩, .ok⟩
    rw [hlen] at hudp
    rw [hudp]
    simp

end

end LwipCs
