import LwipCs.Text.Digits

/-!
# Texts of numerals between separators

A separator divides a text into fields, which determine it and are determined by it. A text of
numerals determines the numbers, and so do two such texts with a gap between them, which is an
empty field: it is the only one when both have a numeral, and the first or the last field is
empty as well when a text has none.
-/

namespace Fields

variable {c : Char} {l l' r r' : List (List Char)} {b : Nat}

/-- A text has one list of fields. -/
theorem intercalate_inj (hl : ∀ f ∈ l, c ∉ f) (hl' : ∀ f ∈ l', c ∉ f) (hne : l ≠ [])
    (hne' : l' ≠ []) (h : List.intercalate [c] l = List.intercalate [c] l') : l = l' := by
  rw [← List.splitOn_intercalate c hl hne, h, List.splitOn_intercalate c hl' hne']

theorem intercalate_append (hne : l ≠ []) (hne' : r ≠ []) :
    List.intercalate [c] (l ++ r) = List.intercalate [c] l ++ c :: List.intercalate [c] r := by
  induction l with
  | nil => exact absurd rfl hne
  | cons f l ih =>
      by_cases hl : l = []
      · subst hl
        rw [List.singleton_append, List.intercalate_cons_of_ne_nil hne', List.intercalate_singleton,
          List.append_assoc, List.singleton_append]
      · have hmore : l ++ r ≠ [] := by simp [hl]
        rw [List.cons_append, List.intercalate_cons_of_ne_nil hmore, ih hl,
          List.intercalate_cons_of_ne_nil hl]
        simp only [List.append_assoc, List.cons_append]

/-! ### Numerals -/

/-- The numerals of some numbers. -/
def numerals (b : Nat) (ns : List Nat) : List (List Char) := ns.map (Nat.toDigits b)

variable {ns ns' ms ms' : List Nat}

theorem not_mem_numerals (hb : 1 < b) (hb' : b ≤ 16) (hc : Digits.IsSeparator c) :
    ∀ f ∈ numerals b ns, c ∉ f := by
  intro f hf
  obtain ⟨n, _, rfl⟩ := List.mem_map.mp hf
  exact Digits.separator_not_mem hb hb' hc

theorem nil_not_mem_numerals : [] ∉ numerals b ns := by
  intro hmem
  obtain ⟨n, _, hn⟩ := List.mem_map.mp hmem
  have hpos := Nat.length_toDigits_pos (b := b) (n := n)
  rw [hn] at hpos
  exact absurd hpos (by decide)

theorem numerals_inj (hb : 1 < b) (hb' : b ≤ 16) (h : numerals b ns = numerals b ns') :
    ns = ns' := by
  apply List.map_injective_iff.mpr _ h
  intro m n
  exact Digits.toDigits_inj hb hb'

theorem numerals_ne_nil (h : ns ≠ []) : numerals b ns ≠ [] := by
  intro hnil
  exact h (List.map_eq_nil_iff.mp hnil)

/-- The numbers whose numerals are the fields of a text. -/
theorem text_inj (hb : 1 < b) (hb' : b ≤ 16) (hc : Digits.IsSeparator c) (hne : ns ≠ [])
    (hne' : ns' ≠ [])
    (h : List.intercalate [c] (numerals b ns) = List.intercalate [c] (numerals b ns')) :
    ns = ns' := by
  apply numerals_inj hb hb'
  exact intercalate_inj (not_mem_numerals hb hb' hc) (not_mem_numerals hb hb' hc)
    (numerals_ne_nil hne) (numerals_ne_nil hne') h

/-! ### A gap -/

/-- The fields of a text of numerals: the empty text has one field. -/
def side (b : Nat) (ns : List Nat) : List (List Char) := if ns = [] then [[]] else numerals b ns

/-- The fields of two texts of numerals with a doubled separator between them. -/
def gapped (b : Nat) (ns ms : List Nat) : List (List Char) := side b ns ++ [] :: side b ms

theorem side_ne_nil : side b ns ≠ [] := by
  unfold side
  split
  · simp
  · exact numerals_ne_nil (by assumption)

theorem gapped_ne_nil : gapped b ns ms ≠ [] := by simp [gapped]

theorem not_mem_side (hb : 1 < b) (hb' : b ≤ 16) (hc : Digits.IsSeparator c) :
    ∀ f ∈ side b ns, c ∉ f := by
  unfold side
  split
  · simp
  · exact not_mem_numerals hb hb' hc

theorem not_mem_gapped (hb : 1 < b) (hb' : b ≤ 16) (hc : Digits.IsSeparator c) :
    ∀ f ∈ gapped b ns ms, c ∉ f := by
  intro f hf
  obtain hf | hf := List.mem_append.mp hf
  · exact not_mem_side hb hb' hc f hf
  · obtain rfl | hf := List.mem_cons.mp hf
    · exact List.not_mem_nil
    · exact not_mem_side hb hb' hc f hf

theorem intercalate_side :
    List.intercalate [c] (side b ns) = List.intercalate [c] (numerals b ns) := by
  unfold side
  split
  · subst ns
    rfl
  · rfl

/-- The text of the fields. -/
theorem intercalate_gapped :
    List.intercalate [c] (gapped b ns ms) =
      List.intercalate [c] (numerals b ns) ++ [c, c] ++ List.intercalate [c] (numerals b ms) := by
  rw [gapped, intercalate_append side_ne_nil (by simp), intercalate_side,
    List.intercalate_cons_of_ne_nil side_ne_nil, intercalate_side]
  simp

/-- The fields before the first empty one are the numerals before the gap. -/
theorem takeWhile_gapped (rest : List (List Char)) :
    (side b ns ++ [] :: rest).takeWhile (· ≠ []) = numerals b ns := by
  unfold side
  split
  · subst ns
    rfl
  · have hfull : ∀ f ∈ numerals b ns, decide (f ≠ []) = true := by
      intro f hf
      apply decide_eq_true
      rintro rfl
      exact nil_not_mem_numerals hf
    rw [List.takeWhile_append_of_pos hfull]
    simp

theorem reverse_gapped : (gapped b ns ms).reverse = gapped b ms.reverse ns.reverse := by
  have hside : ∀ ks, (side b ks).reverse = side b ks.reverse := by
    intro ks
    unfold side
    by_cases hks : ks = []
    · subst hks
      rfl
    · have hrev : ks.reverse ≠ [] := by simpa using hks
      rw [if_neg hks, if_neg hrev]
      exact List.map_reverse.symm
  rw [gapped, List.reverse_append, List.reverse_cons, hside, hside]
  simp [gapped]

/-- The numbers on both sides of the gap of a text. -/
theorem gapped_inj (hb : 1 < b) (hb' : b ≤ 16) (h : gapped b ns ms = gapped b ns' ms') :
    ns = ns' ∧ ms = ms' := by
  have hfirst : ∀ {ns ms ns' ms' : List Nat}, gapped b ns ms = gapped b ns' ms' → ns = ns' := by
    intro ns ms ns' ms' h
    apply numerals_inj hb hb'
    rw [← takeWhile_gapped (side b ms), ← takeWhile_gapped (side b ms')]
    exact congrArg _ h
  refine ⟨hfirst h, ?_⟩
  have hrev : gapped b ms.reverse ns.reverse = gapped b ms'.reverse ns'.reverse := by
    rw [← reverse_gapped, ← reverse_gapped, h]
  exact List.reverse_injective (hfirst hrev)

theorem gappedText_inj (hb : 1 < b) (hb' : b ≤ 16) (hc : Digits.IsSeparator c)
    (h : List.intercalate [c] (gapped b ns ms) = List.intercalate [c] (gapped b ns' ms')) :
    ns = ns' ∧ ms = ms' := by
  apply gapped_inj hb hb'
  exact intercalate_inj (not_mem_gapped hb hb' hc) (not_mem_gapped hb hb' hc) gapped_ne_nil
    gapped_ne_nil h

/-- A text of numerals has no gap. -/
theorem text_ne_gappedText (hb : 1 < b) (hb' : b ≤ 16) (hc : Digits.IsSeparator c)
    (hne : ns ≠ []) :
    List.intercalate [c] (numerals b ns) ≠ List.intercalate [c] (gapped b ns' ms') := by
  intro h
  have heq := intercalate_inj (not_mem_numerals hb hb' hc) (not_mem_gapped hb hb' hc)
    (numerals_ne_nil hne) gapped_ne_nil h
  have hmem : [] ∈ numerals b ns := by
    rw [heq]
    exact List.mem_append_right _ List.mem_cons_self
  exact nil_not_mem_numerals hmem

/-- Numerals between separators hold no other separator. -/
theorem not_mem_text {d : Char} (hb : 1 < b) (hb' : b ≤ 16) (hd : Digits.IsSeparator d)
    (hne : d ≠ c) : d ∉ List.intercalate [c] (numerals b ns) := by
  induction ns with
  | nil => exact List.not_mem_nil
  | cons n ns ih =>
      have hn : d ∉ Nat.toDigits b n := Digits.separator_not_mem hb hb' hd
      by_cases hns : ns = []
      · subst hns
        rw [numerals, List.map_singleton, List.intercalate_singleton]
        exact hn
      · have hmore : ns.map (Nat.toDigits b) ≠ [] := numerals_ne_nil hns
        rw [numerals, List.map_cons, List.intercalate_cons_of_ne_nil hmore]
        simp only [List.mem_append, List.mem_singleton, not_or]
        exact ⟨⟨hn, hne⟩, ih⟩

/-- Two numerals or more have a separator between them. -/
theorem mem_text (h : 2 ≤ ns.length) : c ∈ List.intercalate [c] (numerals b ns) := by
  obtain _ | ⟨m, _ | ⟨n, ns⟩⟩ := ns
  · simp at h
  · simp at h
  · rw [numerals, List.map_cons, List.map_cons, List.intercalate_cons_cons]
    simp

end Fields
