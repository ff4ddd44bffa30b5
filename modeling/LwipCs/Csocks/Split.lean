import LwipCs.Csocks.Isolation

/-!
# Which connections go to the proxy

A later connection is routed by the record of the addresses in A answers, whichever
resolver gave them. It goes to the proxy for the addresses in answers on connections
to a target with host `proxy`, and for no others, in exactly the runs whose responses
keep the two apart.
-/

namespace LwipCs

namespace Csocks

open Interleave

/-- The address of an A or AAAA answer. -/
def Answer.address : Answer → Option NetIP
  | .a _ ip | .aaaa _ ip => some ip
  | .other _ => none

namespace Lib

/-- The target has the host `proxy`. -/
def isProxy (lib : Lib) (target : Text) : Bool := (lib.parse target).any Url.isProxy

/-- The address is an answer of the response. -/
def Answers (lib : Lib) (p : Bytes) (addr : Text) : Prop :=
  ∃ msg x ip, lib.unpack p = some msg ∧ x ∈ msg.answer ∧ x.address = some ip ∧ ip.text = addr

/-- The address is an A answer of the response. -/
def Records (lib : Lib) (p : Bytes) (addr : Text) : Prop :=
  ∃ msg name ip, lib.unpack p = some msg ∧ .a name ip ∈ msg.answer ∧ ip.text = addr

end Lib

/-- The address was an answer of a response that `DNSRecordConn.Write` was given to relay, on a DNS
connection to the proxy. -/
def ProxyAnswer (lib : Lib) (s : Sys) (ip : NetIP) : Prop :=
  ∃ c p o, .answered c p ∈ s.trace ∧ s.objs c = some o ∧ lib.isProxy o.target = true ∧
    lib.Answers p ip.text

/-- A TCP connection, or a UDP flow to another port than 53, to an address goes to the
proxy exactly for the answers of the proxy. -/
def SplitRouted (lib : Lib) (s : Sys) : Prop :=
  ∀ type ip port, type = .tcp ∨ port ≠ 53 →
    (onAccept lib s.record type ip port = .proxy ↔ ProxyAnswer lib s ip) ∧
      (¬ProxyAnswer lib s ip → onAccept lib s.record type ip port = .direct)

/-- A response from the proxy has an AAAA answer only for an address recorded before or by
its A answers, a response from another resolver an A answer only for a recorded one. -/
def Separated (lib : Lib) (s : Sys) : Act → Prop
  | .respond _ c p => ∀ o, s.objs c = some o →
      if lib.isProxy o.target then
        ∀ addr, lib.Answers p addr → s.record.isRecorded addr = true ∨ lib.Records p addr
      else ∀ addr, lib.Records p addr → s.record.isRecorded addr = true
  | _ => True

/-! ### The record -/

variable {lib : Lib} {s t : Sys} {a : Act} {p : Bytes} {addr : Text} {ip : NetIP}

theorem Lib.Records.answers (h : lib.Records p addr) : lib.Answers p addr := by
  obtain ⟨msg, name, ip, hmsg, hmem, haddr⟩ := h
  exact ⟨msg, _, ip, hmsg, hmem, rfl, haddr⟩

theorem Lib.Answers.text (h : lib.Answers p addr) : ∃ ip : NetIP, ip.text = addr := by
  obtain ⟨_, _, ip, _, _, _, haddr⟩ := h
  exact ⟨ip, haddr⟩

namespace DNSRecordProcessor

variable {d : DNSRecordProcessor}

theorem isRecorded_record {key val : Text} :
    (d.record key val).isRecorded addr = true ↔ addr = key ∨ d.isRecorded addr = true := by
  by_cases heq : addr = key
  · subst heq
    simp [isRecorded, record]
  · simp [isRecorded, record, heq]

/-- The loop over the answers records the A answers. -/
theorem isRecorded_recordAnswers {answers : List Answer} :
    (d.recordAnswers answers).isRecorded addr = true ↔
      d.isRecorded addr = true ∨ ∃ name ip, .a name ip ∈ answers ∧ ip.text = addr := by
  induction answers generalizing d with
  | nil => simp [recordAnswers]
  | cons x rest ih =>
      cases x with
      | a name ip =>
          rw [recordAnswers, ih, isRecorded_record]
          constructor
          · rintro ((haddr | hd) | ⟨name', ip', hmem, htext⟩)
            · exact Or.inr ⟨name, ip, List.mem_cons_self, haddr.symm⟩
            · exact Or.inl hd
            · exact Or.inr ⟨name', ip', List.mem_cons_of_mem _ hmem, htext⟩
          · rintro (hd | ⟨name', ip', hmem, htext⟩)
            · exact Or.inl (Or.inr hd)
            · rcases List.mem_cons.mp hmem with heq | hmem
              · cases heq
                exact Or.inl (Or.inl htext.symm)
              · exact Or.inr ⟨name', ip', hmem, htext⟩
      | aaaa name ip =>
          rw [recordAnswers, ih]
          · simp
          · nofun
      | other name =>
          rw [recordAnswers, ih]
          · simp
          · nofun

theorem isRecorded_recordMsg : (d.recordMsg lib p).isRecorded addr = true ↔
    d.isRecorded addr = true ∨ lib.Records p addr := by
  unfold recordMsg Lib.Records
  cases hmsg : lib.unpack p with
  | none => simp
  | some msg => simp [isRecorded_recordAnswers]

end DNSRecordProcessor

/-! ### Responses -/

/-- A step is a response, or leaves the record and the responses as they are. -/
theorem respond_cases (hstep : Step lib s a t) :
    (t.record = s.record ∧ (∀ c p, .answered c p ∈ t.trace ↔ .answered c p ∈ s.trace) ∧
      ∀ i c p, a ≠ .respond i c p) ∨
    ∃ i c p o, a = .respond i c p ∧ s.objs c = some o ∧ t.objs = s.objs ∧
      t.record = s.record.recordMsg lib p ∧ t.trace = s.trace ++ [.answered c p] := by
  cases hstep with
  | responded ho => exact Or.inr ⟨_, _, _, _, rfl, ho, rfl, rfl, rfl⟩
  | relayed => exact Or.inl ⟨rfl, by simp, nofun⟩
  | accepted => exact Or.inl ⟨rfl, by simp, nofun⟩
  | served => exact Or.inl ⟨rfl, by simp, nofun⟩
  | received => exact Or.inl ⟨rfl, by simp, nofun⟩
  | found => exact Or.inl ⟨rfl, by simp, nofun⟩
  | opened => exact Or.inl ⟨rfl, by simp, nofun⟩
  | pushed => exact Or.inl ⟨rfl, by simp, nofun⟩
  | taken => exact Or.inl ⟨rfl, by simp, nofun⟩
  | _ => exact Or.inl ⟨rfl, fun _ _ => Iff.rfl, nofun⟩

/-- The targets of the connections responses were written to do not change. -/
theorem proxyAnswer_of_kept (h : Serving lib s) (hkept : Kept s.objs t.objs)
    (hsame : ∀ c p, .answered c p ∈ t.trace ↔ .answered c p ∈ s.trace) :
    ProxyAnswer lib t ip ↔ ProxyAnswer lib s ip := by
  constructor
  · rintro ⟨c, p, o, hmem, ho, hproxy, hanswers⟩
    have hmem := (hsame c p).mp hmem
    obtain ⟨x, hx⟩ := Option.isSome_iff_exists.mp (h.answering.made c p hmem)
    obtain ⟨x', hx', _, htarget⟩ := hkept c x hx
    rw [ho] at hx'
    cases hx'
    exact ⟨c, p, x, hmem, hx, htarget ▸ hproxy, hanswers⟩
  · rintro ⟨c, p, o, hmem, ho, hproxy, hanswers⟩
    obtain ⟨o', ho', _, htarget⟩ := hkept c o ho
    exact ⟨c, p, o', (hsame c p).mpr hmem, ho', htarget ▸ hproxy, hanswers⟩

/-- A response adds its answers if its connection leads to the proxy. -/
theorem proxyAnswer_respond {c : DnsId} {o : DNSConn} (ho : s.objs c = some o)
    (hobjs : t.objs = s.objs) (htrace : t.trace = s.trace ++ [.answered c p]) :
    ProxyAnswer lib t ip ↔
      ProxyAnswer lib s ip ∨ lib.isProxy o.target = true ∧ lib.Answers p ip.text := by
  unfold ProxyAnswer
  rw [hobjs, htrace]
  constructor
  · rintro ⟨c', p', o', hmem, ho', hproxy, hanswers⟩
    rcases List.mem_append.mp hmem with hmem | hmem
    · exact Or.inl ⟨c', p', o', hmem, ho', hproxy, hanswers⟩
    · cases List.mem_singleton.mp hmem
      rw [ho] at ho'
      cases ho'
      exact Or.inr ⟨hproxy, hanswers⟩
  · rintro (⟨c', p', o', hmem, hrest⟩ | ⟨hproxy, hanswers⟩)
    · exact ⟨c', p', o', List.mem_append_left _ hmem, hrest⟩
    · exact ⟨c, p, o, by simp, ho, hproxy, hanswers⟩

/-- The record consists of the answers of the proxy. -/
def Matching (lib : Lib) (s : Sys) : Prop :=
  ∀ ip : NetIP, s.record.isRecorded ip.text = true ↔ ProxyAnswer lib s ip

/-- Routing is decided by the record. -/
theorem splitRouted_iff (h : lib.ParsesAddrs) : SplitRouted lib s ↔ Matching lib s := by
  constructor
  · intro hrouted ip
    have hproxy := (hrouted .tcp ip 0 (Or.inl rfl)).1
    rw [onAccept_eq h (Or.inl rfl)] at hproxy
    simpa using hproxy
  · intro hmatch type ip port hlater
    rw [onAccept_eq h hlater]
    constructor
    · simpa using hmatch ip
    · intro hno
      rw [if_neg fun hyes => hno ((hmatch ip).mp hyes)]

theorem step_matching (hs : Serving lib s ∧ s.InOrder) (hmatch : Matching lib s)
    (hstep : Step lib s a t) : Matching lib t ↔ Separated lib s a := by
  rcases respond_cases hstep with ⟨hrecord, hsame, hother⟩ |
    ⟨i, c, p, o, rfl, ho, hobjs, hrecord, htrace⟩
  · have hanswer : ∀ ip, ProxyAnswer lib t ip ↔ ProxyAnswer lib s ip :=
      fun ip => proxyAnswer_of_kept hs.1 (step_kept hs.2 hstep) hsame
    refine iff_of_true ?_ ?_
    · intro ip
      rw [hrecord, hanswer]
      exact hmatch ip
    · cases a with
      | respond i c p => exact absurd rfl (hother i c p)
      | _ => trivial
  · have hiff : Matching lib t ↔ ∀ ip : NetIP,
        (s.record.isRecorded ip.text = true ∨ lib.Records p ip.text ↔
          s.record.isRecorded ip.text = true ∨
            lib.isProxy o.target = true ∧ lib.Answers p ip.text) := by
      apply forall_congr'
      intro ip
      rw [hrecord, DNSRecordProcessor.isRecorded_recordMsg, proxyAnswer_respond ho hobjs htrace,
        hmatch ip]
    rw [hiff]
    constructor
    · intro hall o' ho'
      rw [ho] at ho'
      cases ho'
      split
      · rename_i hproxy
        intro addr hanswers
        obtain ⟨ip, rfl⟩ := hanswers.text
        exact (hall ip).mpr (Or.inr ⟨hproxy, hanswers⟩)
      · rename_i hproxy
        intro addr hrecords
        obtain ⟨ip, rfl⟩ := hrecords.answers.text
        rcases (hall ip).mp (Or.inr hrecords) with hyes | ⟨hyes, _⟩
        · exact hyes
        · exact absurd hyes hproxy
    · intro hsep ip
      have hsep := hsep o ho
      split at hsep
      · rename_i hproxy
        constructor
        · exact Or.imp_right fun hrecords => ⟨hproxy, hrecords.answers⟩
        · rintro (hyes | ⟨_, hanswers⟩)
          · exact Or.inl hyes
          · exact hsep _ hanswers
      · rename_i hproxy
        constructor
        · rintro (hyes | hrecords)
          · exact Or.inl hyes
          · exact Or.inl (hsep _ hrecords)
        · rintro (hyes | ⟨hyes, _⟩)
          · exact Or.inl hyes
          · exact absurd hyes hproxy

/-- Later connections are split by the resolver that gave their address, all along exactly
the runs in which every response is separated. -/
theorem run_splitRouted_iff (hparse : lib.ParsesAddrs) {tr : List (Sys × Act)}
    (hrun : (csocks lib).Run tr s) :
    Machine.Always (SplitRouted lib) tr s ↔ Machine.Meets (Separated lib) tr := by
  have known : ∀ {s}, (csocks lib).Reachable s → Serving lib s ∧ s.InOrder :=
    fun h => ⟨reachable_serving h, reachable_inOrder h⟩
  refine hrun.always_iff known ?_ ?_
  · rw [splitRouted_iff hparse]
    intro ip
    refine iff_of_false nofun ?_
    rintro ⟨_, _, _, hmem, _⟩
    cases hmem
  · intro s a t hs hrouted hstep
    rw [splitRouted_iff hparse] at hrouted ⊢
    exact step_matching hs hrouted (Sys.step_cases hstep)

/-- An executable test that a response has only A answers, or none. -/
def separatedTest (lib : Lib) (s : Sys) : Act → Bool
  | .respond _ c p =>
      (s.objs c).all fun o => (lib.unpack p).all fun msg => msg.answer.all fun x =>
        match x with
        | .a _ _ => lib.isProxy o.target
        | .aaaa _ _ => !lib.isProxy o.target
        | .other _ => true
  | _ => true

theorem separated_of_test (h : separatedTest lib s a = true) : Separated lib s a := by
  cases a with
  | respond i c p =>
      intro o ho
      simp only [separatedTest, ho, Option.all_some] at h
      split
      · rename_i hproxy
        rintro addr ⟨msg, x, ip, hmsg, hmem, haddr, htext⟩
        simp only [hmsg, Option.all_some, List.all_eq_true] at h
        cases x with
        | a name ip' =>
            cases haddr
            exact Or.inr ⟨msg, name, ip, hmsg, hmem, htext⟩
        | aaaa name ip' => simpa [hproxy] using h _ hmem
        | other name => cases haddr
      · rename_i hproxy
        rintro addr ⟨msg, name, ip, hmsg, hmem, htext⟩
        simp only [hmsg, Option.all_some, List.all_eq_true] at h
        exact absurd (h _ hmem) hproxy
  | _ => trivial

/-- The name is resolved through the proxy. -/
theorem run_splitRouted_proxy : ∃ tr s, (csocks sampleLib).Run tr s ∧
    onAccept sampleLib s.record .tcp ⟨[1, 2, 3, 4], Or.inl rfl⟩ 80 = .proxy ∧
      Machine.Always (SplitRouted sampleLib) tr s := by
  obtain ⟨tr, s, hrun, hmeets, htest⟩ := Machine.exists_run_of_exec (csocks sampleLib)
    (separatedTest sampleLib)
    [.accept .udp ⟨[1, 1, 1, 1], Or.inl rfl⟩ 53 4096, .recv 0 (some question),
      .target 0 ['d', 'n', 's', ':', '/', '/', 'p', 'r', 'o', 'x', 'y'], .lookup 0, .create 0,
      .returned 0 true, .store 0, .push 0, .connRead 0, .respond 7 0 response,
      .written 7 true]
    (fun s => onAccept sampleLib s.record .tcp ⟨[1, 2, 3, 4], Or.inl rfl⟩ 80 = .proxy) (by decide)
  exact ⟨tr, s, hrun, of_decide_eq_true htest, (run_splitRouted_iff sampleLib_parsesAddrs hrun).mpr
    (hmeets.mono fun _ _ => separated_of_test)⟩

/-- The name is resolved through `dns://local`, and its address goes to the proxy. -/
theorem not_splitRouted_local : ∃ s, (csocks sampleLib).Reachable s ∧
    onAccept sampleLib s.record .tcp ⟨[1, 2, 3, 4], Or.inl rfl⟩ 80 = .proxy ∧
      ¬ProxyAnswer sampleLib s ⟨[1, 2, 3, 4], Or.inl rfl⟩ ∧ ¬SplitRouted sampleLib s := by
  obtain ⟨tr, s, hrun, _, htest⟩ := Machine.exists_run_of_exec (csocks sampleLib)
    (fun _ _ => true)
    [.accept .udp ⟨[1, 1, 1, 1], Or.inl rfl⟩ 53 4096, .recv 0 (some question),
      .target 0 ['d', 'n', 's', ':', '/', '/', 'l', 'o', 'c', 'a', 'l'], .lookup 0, .create 0,
      .returned 0 true, .store 0, .push 0, .connRead 0, .respond 7 0 response,
      .written 7 true]
    (fun s => onAccept sampleLib s.record .tcp ⟨[1, 2, 3, 4], Or.inl rfl⟩ 80 = .proxy ∧
      (s.trace.all fun e => match e with
        | .answered c _ => (s.objs c).all fun o => !sampleLib.isProxy o.target
        | _ => true) = true) (by decide)
  obtain ⟨hproxy, hlocal⟩ := of_decide_eq_true htest
  have hno : ¬ProxyAnswer sampleLib s ⟨[1, 2, 3, 4], Or.inl rfl⟩ := by
    rintro ⟨c, p, o, hmem, ho, hyes, _⟩
    have hc := List.all_eq_true.mp hlocal _ hmem
    simp [ho, hyes] at hc
  exact ⟨s, hrun.reachable, hproxy, hno,
    fun hrouted => hno ((hrouted .tcp _ 80 (Or.inl rfl)).1.mp hproxy)⟩

end Csocks

end LwipCs
