import LwipCs.Csocks.Steps

/-!
# The connections and their keys

An entry of `conns` is found under the key its connection was made with, and the
key determines the client, among those something still points to, and the target.
-/

namespace LwipCs

namespace Csocks

open Interleave

/-- The formatted key determines both of its parts. -/
theorem connKey_inj {addr addr' : Nat} {target target' : Text}
    (h : connKey addr target = connKey addr' target') : addr = addr' ∧ target = target' := by
  have h : ['0', 'x'] ++ (Nat.toDigits 16 addr ++ '-' :: target) =
      ['0', 'x'] ++ (Nat.toDigits 16 addr' ++ '-' :: target') := by
    simpa only [connKey, List.append_assoc] using h
  exact Digits.numeral_inj (by decide) (by decide) (by decide) (List.append_cancel_left h)

/-- The connection a loop was given by `lookup` or made itself. -/
def ProcPc.conn : ProcPc → Option DnsId
  | .calling _ c | .store _ c | .push _ c => some c
  | _ => none

/-- A running loop or a connection in the map points to the client. -/
def InUse (loops : ClientId → ProcPc) (objs : DnsId → Option DNSConn) (conns : Text → Option DnsId)
    (r : ClientId) : Prop :=
  loops r ≠ .off ∨ ∃ c o, objs c = some o ∧ conns o.key = some c ∧ o.base = r

/-- The components that decide where a query goes. -/
structure Ordered (addr : ClientId → Nat) (loops : ClientId → ProcPc) (nextClient : ClientId)
    (objs : DnsId → Option DNSConn) (nextConn : DnsId) (conns : Text → Option DnsId) : Prop where
  made : ∀ c o, objs c = some o →
    c < nextConn ∧ o.base < nextClient ∧ o.key = connKey (addr o.base) o.target
  started : ∀ r, loops r ≠ .off → r < nextClient
  entry : ∀ key c, conns key = some c → ∃ o, objs c = some o ∧ o.key = key
  held : ∀ r c, (loops r).conn = some c → ∃ o, objs c = some o ∧ o.base = r
  /-- two clients in use have two addresses -/
  distinct : ∀ r r', InUse loops objs conns r → InUse loops objs conns r' →
    addr r = addr r' → r = r'

namespace Ordered

variable {addr : ClientId → Nat} {loops : ClientId → ProcPc} {nextClient : ClientId}
variable {objs : DnsId → Option DNSConn} {nextConn : DnsId} {conns : Text → Option DnsId}
variable {r : ClientId} {c : DnsId} {o o' : DNSConn} {key target : Text} {pc : ProcPc}

/-- A running loop goes to a place where it holds no other connection. -/
theorem goto (h : Ordered addr loops nextClient objs nextConn conns) (hrun : loops r ≠ .off)
    (hpc : ∀ c, pc.conn = some c → ∃ o, objs c = some o ∧ o.base = r) :
    Ordered addr (Function.update loops r pc) nextClient objs nextConn conns := by
  have hwas : ∀ r', Function.update loops r pc r' ≠ .off → loops r' ≠ .off := by
    intro r' hr'
    by_cases heq : r' = r
    · rw [heq]
      exact hrun
    · rwa [Function.update_of_ne heq] at hr'
  refine { h with started := fun r' hr' => h.started r' (hwas r' hr'), held := ?_, distinct := ?_ }
  · intro r' c hc
    by_cases heq : r' = r
    · subst heq
      rw [Function.update_self] at hc
      exact hpc c hc
    · rw [Function.update_of_ne heq] at hc
      exact h.held r' c hc
  · intro r₁ r₂ h₁ h₂ haddr
    exact h.distinct r₁ r₂ (h₁.imp_left (hwas r₁)) (h₂.imp_left (hwas r₂)) haddr

/-- An object changes in its queue or its flag only. -/
theorem setConn (h : Ordered addr loops nextClient objs nextConn conns) (ho : objs c = some o)
    (hkey : o'.key = o.key := by rfl) (hbase : o'.base = o.base := by rfl)
    (htarget : o'.target = o.target := by rfl) :
    Ordered addr loops nextClient (Function.update objs c (some o')) nextConn conns := by
  have hback : ∀ c' x, Function.update objs c (some o') c' = some x →
      ∃ y, objs c' = some y ∧ y.key = x.key ∧ y.base = x.base ∧ y.target = x.target := by
    intro c' x hx
    by_cases heq : c' = c
    · subst heq
      rw [Function.update_self] at hx
      cases hx
      exact ⟨o, ho, hkey.symm, hbase.symm, htarget.symm⟩
    · rw [Function.update_of_ne heq] at hx
      exact ⟨x, hx, rfl, rfl, rfl⟩
  have hforth : ∀ c' y, objs c' = some y → ∃ x, Function.update objs c (some o') c' = some x ∧
      x.key = y.key ∧ x.base = y.base := by
    intro c' y hy
    by_cases heq : c' = c
    · subst heq
      rw [ho] at hy
      cases hy
      exact ⟨o', Function.update_self .., hkey, hbase⟩
    · exact ⟨y, by rwa [Function.update_of_ne heq], rfl, rfl⟩
  have hlive : ∀ r, InUse loops (Function.update objs c (some o')) conns r →
      InUse loops objs conns r := by
    rintro r (hrun | ⟨c', x, hx, hentry, hr⟩)
    · exact Or.inl hrun
    · obtain ⟨y, hy, hk, hb, _⟩ := hback c' x hx
      exact Or.inr ⟨c', y, hy, by rwa [hk], by rwa [hb]⟩
  refine ⟨?_, h.started, ?_, ?_, ?_⟩
  · intro c' x hx
    obtain ⟨y, hy, hk, hb, ht⟩ := hback c' x hx
    rw [← hk, ← hb, ← ht]
    exact h.made c' y hy
  · intro key c' hc'
    obtain ⟨y, hy, hk⟩ := h.entry key c' hc'
    obtain ⟨x, hx, hk', _⟩ := hforth c' y hy
    exact ⟨x, hx, hk'.trans hk⟩
  · intro r c' hc'
    obtain ⟨y, hy, hb⟩ := h.held r c' hc'
    obtain ⟨x, hx, _, hb'⟩ := hforth c' y hy
    exact ⟨x, hx, hb'.trans hb⟩
  · intro r₁ r₂ h₁ h₂ haddr
    exact h.distinct r₁ r₂ (hlive r₁ h₁) (hlive r₂ h₂) haddr

/-- A client is served at an address no live client has. -/
theorem serve {a : Nat} (h : Ordered addr loops nextClient objs nextConn conns)
    (hfree : ∀ r, InUse loops objs conns r → addr r ≠ a) :
    Ordered (Function.update addr nextClient a) (Function.update loops nextClient .read)
      (nextClient + 1) objs nextConn conns := by
  have hsame : ∀ r, r < nextClient → Function.update addr nextClient a r = addr r :=
    fun r hr => Function.update_of_ne (Nat.ne_of_lt hr) ..
  have hcases : ∀ r, InUse (Function.update loops nextClient .read) objs conns r →
      r = nextClient ∨ r < nextClient ∧ InUse loops objs conns r := by
    intro r hr
    by_cases heq : r = nextClient
    · exact Or.inl heq
    · rw [InUse, Function.update_of_ne heq] at hr
      refine Or.inr ⟨?_, hr⟩
      rcases hr with hrun | ⟨c, o, ho, _, rfl⟩
      · exact h.started r hrun
      · exact (h.made c o ho).2.1
  refine ⟨?_, ?_, h.entry, ?_, ?_⟩
  · intro c o ho
    obtain ⟨hc, hbase, hkey⟩ := h.made c o ho
    exact ⟨hc, Nat.lt_succ_of_lt hbase, by rw [hsame _ hbase, hkey]⟩
  · intro r hr
    by_cases heq : r = nextClient
    · exact heq ▸ Nat.lt_succ_self _
    · rw [Function.update_of_ne heq] at hr
      exact Nat.lt_succ_of_lt (h.started r hr)
  · intro r c hc
    by_cases heq : r = nextClient
    · subst heq
      rw [Function.update_self] at hc
      cases hc
    · rw [Function.update_of_ne heq] at hc
      exact h.held r c hc
  · intro r₁ r₂ h₁ h₂ haddr
    rcases hcases r₁ h₁ with rfl | ⟨hlt₁, hlive₁⟩ <;> rcases hcases r₂ h₂ with rfl | ⟨hlt₂, hlive₂⟩
    · rfl
    · rw [Function.update_self, hsame _ hlt₂] at haddr
      exact absurd haddr.symm (hfree r₂ hlive₂)
    · rw [Function.update_self, hsame _ hlt₁] at haddr
      exact absurd haddr (hfree r₁ hlive₁)
    · rw [hsame _ hlt₁, hsame _ hlt₂] at haddr
      exact h.distinct r₁ r₂ hlive₁ hlive₂ haddr

/-- `NewDNSConn` for the client of a running loop. -/
theorem make (h : Ordered addr loops nextClient objs nextConn conns) (hrun : loops r ≠ .off)
    (hpc : ∀ c, pc.conn = some c → c = nextConn) :
    Ordered addr (Function.update loops r pc) nextClient
      (Function.update objs nextConn (some (newDNSConn (connKey (addr r) target) r target)))
      (nextConn + 1) conns := by
  have hnew : ∀ c o, objs c = some o → c ≠ nextConn := fun c o ho => Nat.ne_of_lt (h.made c o ho).1
  have hmore : Ordered addr loops nextClient
      (Function.update objs nextConn (some (newDNSConn (connKey (addr r) target) r target)))
      (nextConn + 1) conns := by
    have hentry : ∀ key, conns key ≠ some nextConn := by
      intro key hkey
      obtain ⟨o, ho, _⟩ := h.entry key nextConn hkey
      exact hnew _ o ho rfl
    have hlive : ∀ r', InUse loops (Function.update objs nextConn
        (some (newDNSConn (connKey (addr r) target) r target))) conns r' →
          InUse loops objs conns r' := by
      rintro r' (hrun' | ⟨c, o, ho, hc, hbase⟩)
      · exact Or.inl hrun'
      · have hne : c ≠ nextConn := by
          rintro rfl
          exact hentry _ hc
        rw [Function.update_of_ne hne] at ho
        exact Or.inr ⟨c, o, ho, hc, hbase⟩
    refine ⟨?_, h.started, ?_, ?_, ?_⟩
    · intro c o ho
      by_cases heq : c = nextConn
      · subst heq
        rw [Function.update_self] at ho
        cases ho
        exact ⟨Nat.lt_succ_self _, h.started r hrun, rfl⟩
      · rw [Function.update_of_ne heq] at ho
        obtain ⟨hc, hrest⟩ := h.made c o ho
        exact ⟨Nat.lt_succ_of_lt hc, hrest⟩
    · intro key c hc
      obtain ⟨o, ho, hkey⟩ := h.entry key c hc
      exact ⟨o, by rwa [Function.update_of_ne (hnew c o ho)], hkey⟩
    · intro r' c hc
      obtain ⟨o, ho, hbase⟩ := h.held r' c hc
      exact ⟨o, by rwa [Function.update_of_ne (hnew c o ho)], hbase⟩
    · intro r₁ r₂ h₁ h₂ haddr
      exact h.distinct r₁ r₂ (hlive r₁ h₁) (hlive r₂ h₂) haddr
  apply hmore.goto hrun
  intro c hc
  obtain rfl := hpc c hc
  exact ⟨_, Function.update_self .., rfl⟩

/-- `d.conns[key] = conn`, by the loop that made it. -/
theorem store (h : Ordered addr loops nextClient objs nextConn conns) (ho : objs c = some o)
    (hrun : loops o.base ≠ .off) :
    Ordered addr loops nextClient objs nextConn (Function.update conns o.key (some c)) := by
  have hlive : ∀ r, InUse loops objs (Function.update conns o.key (some c)) r →
      InUse loops objs conns r := by
    rintro r (hrun' | ⟨c', x, hx, hentry, rfl⟩)
    · exact Or.inl hrun'
    · by_cases heq : x.key = o.key
      · rw [heq, Function.update_self] at hentry
        cases hentry
        rw [ho] at hx
        cases hx
        exact Or.inl hrun
      · rw [Function.update_of_ne heq] at hentry
        exact Or.inr ⟨c', x, hx, hentry, rfl⟩
  refine { h with entry := ?_, distinct := ?_ }
  · intro key c' hc'
    by_cases heq : key = o.key
    · subst heq
      rw [Function.update_self] at hc'
      cases hc'
      exact ⟨o, ho, rfl⟩
    · rw [Function.update_of_ne heq] at hc'
      exact h.entry key c' hc'
  · intro r₁ r₂ h₁ h₂ haddr
    exact h.distinct r₁ r₂ (hlive r₁ h₁) (hlive r₂ h₂) haddr

/-- `delete(d.conns, key)`. -/
theorem delete (h : Ordered addr loops nextClient objs nextConn conns) :
    Ordered addr loops nextClient objs nextConn (Function.update conns key none) := by
  have hwas : ∀ key' c, Function.update conns key none key' = some c → conns key' = some c := by
    intro key' c hc
    by_cases heq : key' = key
    · subst heq
      rw [Function.update_self] at hc
      cases hc
    · rwa [Function.update_of_ne heq] at hc
  have hlive : ∀ r, InUse loops objs (Function.update conns key none) r →
      InUse loops objs conns r := by
    rintro r (hrun | ⟨c', x, hx, hentry, hr⟩)
    · exact Or.inl hrun
    · exact Or.inr ⟨c', x, hx, hwas _ _ hentry, hr⟩
  refine { h with entry := ?_, distinct := ?_ }
  · intro key' c hc
    exact h.entry key' c (hwas key' c hc)
  · intro r₁ r₂ h₁ h₂ haddr
    exact h.distinct r₁ r₂ (hlive r₁ h₁) (hlive r₂ h₂) haddr

end Ordered

variable {lib : Lib} {s t : Sys} {a : Act}

abbrev Sys.InOrder (s : Sys) : Prop :=
  Ordered s.addr s.loops s.nextClient s.objs s.nextConn s.conns

theorem Sys.free_spec {addr : Nat} (h : s.InOrder) (hfree : s.free addr = true) {r : ClientId}
    (hlive : InUse s.loops s.objs s.conns r) : s.addr r ≠ addr := by
  obtain ⟨hloops, hobjs⟩ := Bool.and_eq_true_iff.mp hfree
  rcases hlive with hrun | ⟨c, o, ho, hentry, rfl⟩
  · have hr := List.all_eq_true.mp hloops r (List.mem_range.mpr (h.started r hrun))
    simpa [hrun] using hr
  · have hc := List.all_eq_true.mp hobjs c (List.mem_range.mpr (h.made c o ho).1)
    simpa [ho, hentry] using hc

theorem step_inOrder (h : s.InOrder) (hstep : Step lib s a t) : t.InOrder := by
  have running : ∀ {r pc}, s.loops r = pc → pc ≠ .off → s.loops r ≠ .off := by
    rintro r pc rfl hpc
    exact hpc
  cases hstep with
  | served hroute hfree => exact h.serve fun r hlive => Sys.free_spec h hfree hlive
  | ended hpc => exact h.goto (running hpc nofun) nofun
  | received hpc => exact h.goto (running hpc nofun) nofun
  | found hpc => exact h.goto (running hpc nofun) nofun
  | @hit r q target c hpc hentry =>
      apply h.goto (running hpc nofun)
      rintro _ ⟨⟩
      obtain ⟨o, ho, hkey⟩ := h.entry _ c hentry
      rw [(h.made c o ho).2.2] at hkey
      have hentry : s.conns o.key = some c := by rwa [(h.made c o ho).2.2, hkey]
      have hrun := running hpc nofun
      exact ⟨o, ho, h.distinct _ _ (Or.inr ⟨c, o, ho, hentry, rfl⟩) (Or.inl hrun)
        (connKey_inj hkey).1⟩
  | missed hpc => exact h.goto (running hpc nofun) nofun
  | refused hpc => exact h.goto (running hpc nofun) nofun
  | opened hpc =>
      apply h.make (running hpc nofun)
      rintro _ ⟨⟩
      rfl
  | failed hpc => exact h.goto (running hpc nofun) nofun
  | @returned r q c hpc =>
      apply h.goto (running hpc nofun)
      rintro _ ⟨⟩
      exact h.held r c (by rw [hpc]; rfl)
  | @stored r q c o hpc ho =>
      have hbase : o.base = r := by
        obtain ⟨x, hx, hbase⟩ := h.held r c (by rw [hpc]; rfl)
        rw [ho] at hx
        cases hx
        exact hbase
      have hrun := running hpc nofun
      apply (h.store ho (by rwa [hbase])).goto hrun
      rintro _ ⟨⟩
      exact ⟨o, ho, hbase⟩
  | pushed hpc ho hsend => exact (h.setConn ho).goto (running hpc nofun) nofun
  | taken ho => exact h.setConn ho
  | marked _ ho => exact h.setConn ho
  | queueClosed _ ho => exact h.setConn ho
  | deleted => exact h.delete
  | _ => exact h

theorem reachable_inOrder (h : (csocks lib).Reachable s) : s.InOrder := by
  refine h.invariant ?_ fun s a t hs hstep => step_inOrder hs (Sys.step_cases hstep)
  refine ⟨nofun, ?_, nofun, nofun, ?_⟩
  · intro r hr
    exact absurd rfl hr
  · rintro r r' (hr | ⟨c, o, ho, _, _⟩) _ _
    · exact absurd rfl hr
    · cases ho

end Csocks

end LwipCs
