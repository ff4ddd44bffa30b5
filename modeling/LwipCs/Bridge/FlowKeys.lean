import LwipCs.Lwip.AddrText
import LwipCs.Bridge.Landed
import LwipCs.Bridge.UdpFlows

/-!
# Which datagrams a UDP PCB gets

`go_udp_recv_h` finds the PCB for a datagram under the text of its source. The text tells the port,
the family and the exported octets of a source, so a PCB gets the datagrams of all the sources that
agree with its remote end in these, and of no others.
-/

namespace LwipCs

open Interleave

/-- The chunk of a datagram from a source like `remote`, while `p` is the PCB for it. -/
def fromAlike (cfg : Config) (p : PcbId) (remote : Endpoint) (s : Sys) : Act → Option Bytes
  | .callback (.udp src _ (some data)) _ =>
      if data ≠ [] ∧ src.Alike remote ∧ s.Finds cfg p remote then some data else none
  | _ => none

variable {cfg : Config} {s t : Sys} {a : Act} {p : PcbId}

theorem finds_iff {src remote : Endpoint} (h : src.Alike remote) :
    s.Finds cfg p src ↔ s.Finds cfg p remote := by
  rw [Sys.Finds, Sys.Finds, (udpKey_eq_iff cfg.host src remote).mpr h]

/-- The PCB found for a source is one for sources like it. -/
theorem Step.alike_of_finds {o : Outcomes} {src dst : Endpoint} {data : Bytes}
    (h : Step cfg s (.callback (.udp src dst (some data)) o) t) (hs : s.InFlows cfg)
    (hdata : data ≠ []) (hfinds : s.Finds cfg p src) :
    p < t.nextPcb ∧ src.Alike (t.pcbs p).remoteEnd := by
  rw [← udpKey_eq_iff cfg.host]
  obtain hfound | ⟨hnone, rfl⟩ := hfinds
  · obtain ⟨hlt, hkey⟩ := hs.known _ p hfound
    have hremote : (t.pcbs p).remoteEnd = (s.pcbs p).remoteEnd :=
      congrArg Flow.remoteEnd (h.flow_eq hlt)
    refine ⟨Nat.lt_of_lt_of_le hlt h.nextPcb_le, ?_⟩
    rw [hremote, hkey]
  · cases h with
    | callback _ h =>
        cases h with
        | ignored hcb => cases hcb
        | udpEmpty => exact absurd rfl hdata
        | udpKnown hfound _ =>
            rw [hnone] at hfound
            cases hfound
        | udpNew _ _ =>
            refine ⟨Nat.lt_succ_self _, ?_⟩
            simp only [Function.update_self]
            rfl

/-- A data callback of lwIP finds TCP PCBs. -/
theorem handed_recv (hs : s.InTable) (hp : ¬Made s.nextPcb s.pcbs .tcp p) {c : Ptr}
    {data : Option Bytes} {err : ErrT} {o : Outcomes} :
    handed cfg p s (.callback (.recv c data err) o) = none := by
  cases data with
  | none => rfl
  | some data =>
      cases err with
      | ok =>
          apply if_neg
          rintro ⟨_, hentry, _⟩
          obtain ⟨e, _, hq⟩ := Option.bind_eq_some_iff.mp hentry
          obtain ⟨hlt, htype, _⟩ := hs.known e p hq
          exact hp ⟨hlt, htype⟩
      | _ => rfl

/-- What a step hands to a UDP PCB comes from a source like its remote end. -/
theorem Step.handed_eq {remote : Endpoint} (h : Step cfg s a t) (hs : s.InTable)
    (hflows : s.InFlows cfg) (hp : ¬Made s.nextPcb s.pcbs .tcp p)
    (hremote : p < t.nextPcb → (t.pcbs p).remoteEnd = remote) :
    handed cfg p s a = fromAlike cfg p remote s a := by
  cases a with
  | callback cb o =>
      cases cb with
      | udp src dst data =>
          cases data with
          | none => rfl
          | some data =>
              refine if_congr ?_ rfl rfl
              constructor
              · rintro ⟨hdata, hfinds⟩
                obtain ⟨hlt, halike⟩ := h.alike_of_finds hflows hdata hfinds
                rw [hremote hlt] at halike
                exact ⟨hdata, halike, (finds_iff halike).mp hfinds⟩
              · rintro ⟨hdata, halike, hfinds⟩
                exact ⟨hdata, (finds_iff halike).mpr hfinds⟩
      | recv => exact handed_recv hs hp
      | _ => rfl
  | _ => rfl

theorem run_handed {remote : Endpoint} {tr : List (Sys × Act)} (hrun : (bridge cfg).Run tr s)
    (hp : ¬Made s.nextPcb s.pcbs .tcp p)
    (hremote : p < s.nextPcb → (s.pcbs p).remoteEnd = remote) :
    s.landed p = tr.filterMap fun x => fromAlike cfg p remote x.1 x.2 := by
  induction hrun with
  | start => rfl
  | @step tr s t a hrun hstep ih =>
      have hs := reachable_inOrder hrun.reachable
      have hcases := step_cases hs hstep
      -- what holds of the fixed fields now held before
      have hflow : p < s.nextPcb → p < t.nextPcb ∧ (t.pcbs p).toFlow = (s.pcbs p).toFlow :=
        fun hlt => ⟨Nat.lt_of_lt_of_le hlt hcases.nextPcb_le, hcases.flow_eq hlt⟩
      have hp' : ¬Made s.nextPcb s.pcbs .tcp p := by
        rintro ⟨hlt, htype⟩
        obtain ⟨hlt', heq⟩ := hflow hlt
        exact hp ⟨hlt', (congrArg Flow.type heq).trans htype⟩
      have hremote' : p < s.nextPcb → (s.pcbs p).remoteEnd = remote := by
        intro hlt
        obtain ⟨hlt', heq⟩ := hflow hlt
        rw [← hremote hlt']
        exact (congrArg Flow.remoteEnd heq).symm
      have hnew := hcases.handed_eq hs.table (reachable_inFlows hrun.reachable) hp' hremote
      rw [hcases.landed, ih hp' hremote', hnew, List.filterMap_append]
      cases hchunk : fromAlike cfg p remote s a with
      | none => simp [hchunk]
      | some data => simp [hchunk]

/-- In every run a UDP PCB gets, in the order of arrival, the datagrams from sources like its
remote end that arrive while it is the PCB for them, and a PCB in the table is the one for exactly
these sources. -/
theorem run_getsAlike {tr : List (Sys × Act)} (hrun : (bridge cfg).Run tr s)
    (hp : Made s.nextPcb s.pcbs .udp p) :
    (s.landed p = tr.filterMap fun x => fromAlike cfg p (s.pcbs p).remoteEnd x.1 x.2) ∧
      ∀ key, s.udpPcbs key = some p →
        ∀ src, s.Finds cfg p src ↔ src.Alike (s.pcbs p).remoteEnd := by
  constructor
  · apply run_handed hrun _ fun _ => rfl
    rintro ⟨_, htype⟩
    rw [hp.2] at htype
    cases htype
  · intro key hkey src
    obtain ⟨hlt, hremote⟩ := (reachable_inFlows hrun.reachable).known key p hkey
    rw [← udpKey_eq_iff cfg.host, hremote]
    constructor
    · rintro (hfound | ⟨_, hnext⟩)
      · exact ((reachable_inFlows hrun.reachable).known _ p hfound).2.symm.trans hremote
      · rw [hnext] at hlt
        exact absurd hlt (Nat.lt_irrefl _)
    · intro hsrc
      rw [Sys.Finds, hsrc]
      exact Or.inl hkey

/-- A PCB gets the datagrams of `2001:db8::1` and of `2001:db8::1:1`, and not that of
`2001:db8::2`. -/
theorem run_getsAlike_two : ∃ tr s, (bridge Schedule.config).Run tr s ∧
    s.landed 0 = [[1], [2]] ∧ s.landed 1 = [[3]] ∧
      (s.landed 0 = tr.filterMap fun x =>
        fromAlike Schedule.config 0 (s.pcbs 0).remoteEnd x.1 x.2) := by
  obtain ⟨tr, s, hrun, _, htest⟩ := Machine.exists_run_of_exec (bridge Schedule.config)
    (fun _ _ => true)
    (Schedule.enterLwip ++
      [.callback (.udp ⟨.v6 0xB80D0120#32 0 0 0x01000000#32, 4000⟩ ⟨.v4 2, 53⟩ (some [1]))
          Schedule.fine, .loop Schedule.fine, .loop Schedule.fine,
        .callback (.udp ⟨.v6 0xB80D0120#32 0 0 0x01000100#32, 4000⟩ ⟨.v4 2, 53⟩ (some [2]))
          Schedule.fine, .loop Schedule.fine, .loop Schedule.fine,
        .callback (.udp ⟨.v6 0xB80D0120#32 0 0 0x02000000#32, 4000⟩ ⟨.v4 2, 53⟩ (some [3]))
          Schedule.fine, .loop Schedule.fine, .loop Schedule.fine])
    (fun s => 0 < s.nextPcb ∧ (s.pcbs 0).type = .udp ∧ s.landed 0 = [[1], [2]] ∧
      s.landed 1 = [[3]]) (by decide +kernel)
  obtain ⟨hlt, htype, hfirst, hsecond⟩ := of_decide_eq_true htest
  exact ⟨tr, s, hrun, hfirst, hsecond, (run_getsAlike hrun ⟨hlt, htype⟩).1⟩

end LwipCs
