import Mathlib.Data.List.Basic

/-!
# Numerals in texts

Up to base sixteen the digits written for a number determine it, and none of them
is a separator. A text that is a numeral, a separator and a rest therefore
determines the number and the rest.
-/

namespace Digits

/-- No digit up to base sixteen. -/
def IsSeparator (c : Char) : Prop := ∀ d < 16, Nat.digitChar d ≠ c

instance (c : Char) : Decidable (IsSeparator c) :=
  inferInstanceAs (Decidable (∀ d < 16, Nat.digitChar d ≠ c))

variable {b m n : Nat} {c : Char}

theorem digitChar_inj (hm : m < 16) (hn : n < 16) (h : m.digitChar = n.digitChar) : m = n := by
  have hall : ∀ m < 16, ∀ n < 16, Nat.digitChar m = Nat.digitChar n → m = n := by decide
  exact hall m hm n hn h

/-- The digits of a number determine it. -/
theorem toDigits_inj (hb : 1 < b) (hb' : b ≤ 16) (h : Nat.toDigits b m = Nat.toDigits b n) :
    m = n := by
  induction m using Nat.strongRecOn generalizing n with
  | ind m ih =>
      rw [Nat.toDigits_eq_if hb (n := m), Nat.toDigits_eq_if hb (n := n)] at h
      split at h
      · rename_i hm
        split at h
        · rename_i hn
          apply digitChar_inj (by omega) (by omega)
          exact List.singleton_inj.mp h
        · have hlen := congrArg List.length h
          have hpos := Nat.length_toDigits_pos (b := b) (n := n / b)
          simp only [List.length_append, List.length_singleton] at hlen
          omega
      · rename_i hm
        split at h
        · have hlen := congrArg List.length h
          have hpos := Nat.length_toDigits_pos (b := b) (n := m / b)
          simp only [List.length_append, List.length_singleton] at hlen
          omega
        · obtain ⟨hfront, hlast⟩ := List.append_inj' h rfl
          have hdiv : m / b = n / b := by
            apply ih (m / b) _ hfront
            exact Nat.div_lt_self (by omega) hb
          have hlt : ∀ x, x % b < 16 := fun x => Nat.lt_of_lt_of_le (Nat.mod_lt x (by omega)) hb'
          have hmod : m % b = n % b := digitChar_inj (hlt m) (hlt n) (List.singleton_inj.mp hlast)
          rw [← Nat.div_add_mod m b, hdiv, hmod, Nat.div_add_mod]

theorem separator_not_mem (hb : 1 < b) (hb' : b ≤ 16) (hc : IsSeparator c) :
    c ∉ Nat.toDigits b n := by
  induction n using Nat.strongRecOn with
  | ind n ih =>
      rw [Nat.toDigits_eq_if hb]
      split
      · rename_i hn
        intro hmem
        exact hc n (by omega) (List.mem_singleton.mp hmem).symm
      · intro hmem
        rcases List.mem_append.mp hmem with hmem | hmem
        · exact ih (n / b) (Nat.div_lt_self (by omega) hb) hmem
        · have hlt : n % b < 16 := Nat.lt_of_lt_of_le (Nat.mod_lt n (by omega)) hb'
          exact hc _ hlt (List.mem_singleton.mp hmem).symm

/-- The first occurrence of a separator splits a text in one way. -/
theorem append_cons_inj {α : Type*} {x : α} {l l' t t' : List α} (hl : x ∉ l) (hl' : x ∉ l')
    (h : l ++ x :: t = l' ++ x :: t') : l = l' ∧ t = t' := by
  induction l generalizing l' with
  | nil =>
      cases l' with
      | nil => exact ⟨rfl, (List.cons.inj h).2⟩
      | cons y l' =>
          obtain ⟨rfl, _⟩ := List.cons.inj h
          exact absurd List.mem_cons_self hl'
  | cons y l ih =>
      cases l' with
      | nil =>
          obtain ⟨rfl, _⟩ := List.cons.inj h
          exact absurd List.mem_cons_self hl
      | cons z l' =>
          obtain ⟨rfl, htail⟩ := List.cons.inj h
          obtain ⟨rfl, ht⟩ := ih (fun hmem => hl (List.mem_cons_of_mem _ hmem))
            (fun hmem => hl' (List.mem_cons_of_mem _ hmem)) htail
          exact ⟨rfl, ht⟩

/-- A numeral followed by a separator and a rest. -/
theorem numeral_inj {t t' : List Char} (hb : 1 < b) (hb' : b ≤ 16) (hc : IsSeparator c)
    (h : Nat.toDigits b m ++ c :: t = Nat.toDigits b n ++ c :: t') : m = n ∧ t = t' := by
  obtain ⟨hdigits, ht⟩ := append_cons_inj (separator_not_mem hb hb' hc)
    (separator_not_mem hb hb' hc) h
  exact ⟨toDigits_inj hb hb' hdigits, ht⟩

end Digits
