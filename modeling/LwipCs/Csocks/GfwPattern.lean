import LwipCs.Csocks.Gfw

/-!
# Which names have an expression

The name of a DNS question comes from the network with any bytes in its labels. The presentation
of names escapes a few of them, but not those that mean something in a regular
expression, and a piece may end behind the backslash of an escaped dot. What `Find` puts together
is in the fragment of the syntax nevertheless, so `MustCompile` panics exactly if
the grammar has no such pattern.
-/

namespace LwipCs

namespace Csocks

open Regexp

/-- The characters that the presentation puts a backslash before. -/
structure Escapes (special : Char → Bool) : Prop where
  dot : special '.' = true
  opening : special '(' = true
  closing : special ')' = true
  backslash : special '\\' = true
  not_letter : ∀ c, special c = true → c.isAlpha = false

/-- A byte of a label: escaped, as a decimal code if it is not printable, or as it is. -/
def presentByte (special : Char → Bool) (b : UInt8) : Text :=
  let c := Char.ofNat b.toNat
  if special c then ['\\', c]
  else if b < 32 ∨ 126 < b then
    ['\\', Nat.digitChar (b.toNat / 100), Nat.digitChar (b.toNat / 10 % 10),
      Nat.digitChar (b.toNat % 10)]
  else [c]

/-- The name of a question: labels of 1 to 63 bytes, at most 255 bytes on the wire. -/
structure QName where
  labels : List Bytes
  short : ∀ l ∈ labels, 1 ≤ l.length ∧ l.length ≤ 63
  total : (labels.map fun l => l.length + 1).sum + 1 ≤ 255

/-- `Question.Name` of a decoded message. -/
def QName.text (special : Char → Bool) (name : QName) : Text :=
  if name.labels = [] then ['.']
  else name.labels.flatMap fun l => l.flatMap (presentByte special) ++ ['.']

/-! ### Scanning -/

variable {s t u p0 p1 : Text} {special : Char → Bool}

/-- The text ends outside of an escape. -/
def Closed (t : Text) : Prop := t.foldlM scanStep false = some false

theorem closed_append (hs : Closed s) (ht : Closed t) : Closed (s ++ t) := by
  rw [Closed, List.foldlM_append, hs]
  exact ht

theorem closed_flatMap {α : Type} {f : α → Text} {l : List α} (h : ∀ a ∈ l, Closed (f a)) :
    Closed (l.flatMap f) := by
  induction l with
  | nil => rfl
  | cons a l ih =>
      rw [List.flatMap_cons]
      exact closed_append (h a List.mem_cons_self) (ih fun b hb => h b (List.mem_cons_of_mem a hb))

theorem digitChar_not_letter {n : Nat} (h : n < 10) : (Nat.digitChar n).isAlpha = false := by
  have hall : ∀ n < 10, (Nat.digitChar n).isAlpha = false := by decide
  exact hall n h

theorem closed_escaped {c : Char} (h : c.isAlpha = false) : Closed ['\\', c] := by
  simp [Closed, List.foldlM_cons, scanStep, h]

/-- A presented byte is closed, whichever it is. -/
theorem closed_presentByte (hesc : Escapes special) (b : UInt8) :
    Closed (presentByte special b) := by
  unfold presentByte
  simp only
  split
  · rename_i hspecial
    exact closed_escaped (hesc.not_letter _ hspecial)
  · rename_i hplain
    split
    · have hb := b.toNat_lt
      have hdigit := digitChar_not_letter (n := b.toNat / 100) (by omega)
      exact closed_append (s := ['\\', _]) (closed_escaped hdigit) (scan_text (by simp))
    · apply scan_text
      intro c hc hmem
      obtain rfl := List.mem_singleton.mp hc
      simp only [List.mem_cons, List.not_mem_nil, or_false] at hmem
      rcases hmem with h | h | h
      · exact hplain (h ▸ hesc.opening)
      · exact hplain (h ▸ hesc.closing)
      · exact hplain (h ▸ hesc.backslash)

theorem QName.closed (hesc : Escapes special) (name : QName) : Closed (name.text special) := by
  have hdot : Closed ['.'] := rfl
  rw [QName.text]
  split
  · exact hdot
  · exact closed_flatMap fun l _ =>
      closed_append (closed_flatMap fun b _ => closed_presentByte hesc b) hdot

theorem Closed.fragment (h : Closed t) : InFragment t := by
  rw [InFragment, h]
  rfl

/-- A text of the fragment may be cut off anywhere. -/
theorem fragment_front (h : InFragment (s ++ t)) : InFragment s := by
  rw [InFragment, List.foldlM_append] at h
  unfold InFragment
  cases hs : s.foldlM scanStep false with
  | none =>
      rw [hs] at h
      cases h
  | some b => rfl

/-- Behind a dot no escape is open. -/
theorem fragment_behind (h : InFragment (s ++ '.' :: t)) : InFragment t := by
  rw [InFragment, List.foldlM_append] at h
  cases hs : s.foldlM scanStep false with
  | none =>
      rw [hs] at h
      cases h
  | some b =>
      rw [hs] at h
      cases b <;> exact h

theorem fragment_part {n : Nat} (h : InFragment t) : ∀ p ∈ splitAfterN '.' n t, InFragment p := by
  induction n generalizing t with
  | zero => nofun
  | succ n ih =>
      by_cases hdot : '.' ∈ t
      · obtain ⟨s, u, rfl, hs⟩ := List.eq_append_cons_of_mem hdot
        cases n with
        | zero =>
            intro p hp
            rw [List.mem_singleton.mp hp]
            exact h
        | succ n =>
            rw [splitAfterN_cut hs]
            intro p hp
            rcases List.mem_cons.mp hp with rfl | hp
            · rw [List.append_cons] at h
              exact fragment_front h
            · exact ih (fragment_behind h) p hp
      · rw [splitAfterN_whole hdot]
        intro p hp
        rw [List.mem_singleton.mp hp]
        exact h

theorem fragment_dropDots (h : InFragment t) : InFragment (t.dropWhile (· = '.')) := by
  induction t with
  | nil => exact h
  | cons c t ih =>
      by_cases hc : c = '.'
      · rw [List.dropWhile_cons_of_pos (by simpa using hc)]
        exact ih (fragment_behind (s := []) (hc ▸ h))
      · rw [List.dropWhile_cons_of_neg (by simpa using hc)]
        exact h

theorem fragment_trimDots (h : InFragment t) : InFragment (trimDots t) := by
  obtain ⟨dots, hdots⟩ := List.rdropWhile_prefix (p := (· = '.')) (l := t.dropWhile (· = '.'))
  have hdrop := fragment_dropDots h
  rw [← hdots] at hdrop
  exact fragment_front hdrop

/-- Whether or not the first piece ends with a backslash, the expression is of the fragment. -/
theorem fragment_pieces (h0 : InFragment p0) (h1 : InFragment p1) :
    InFragment (DNSGFW.ptxt p0 p1) := by
  obtain ⟨b, hb⟩ := Option.isSome_iff_exists.mp h0
  obtain ⟨b', hb'⟩ := Option.isSome_iff_exists.mp h1
  have hhead : Closed ['[', '\\', '|', '\\', '.', ']', '*'] := rfl
  have hdot : ['\\', '.'].foldlM scanStep b = some false := by cases b <;> rfl
  have hend : (['$'].foldlM scanStep b').isSome := by cases b' <;> rfl
  rw [InFragment, DNSGFW.ptxt, List.foldlM_append, List.foldlM_append, List.foldlM_append,
    List.foldlM_append, hhead]
  simpa only [Option.bind_eq_bind, Option.bind_some, hb, hdot, hb'] using hend

theorem mem_part {n : Nat} {p : Text} {c : Char} (hp : p ∈ splitAfterN '.' n t) (hc : c ∈ p) :
    c ∈ t := by
  induction n generalizing t with
  | zero => cases hp
  | succ n ih =>
      by_cases hdot : '.' ∈ t
      · obtain ⟨s, u, rfl, hs⟩ := List.eq_append_cons_of_mem hdot
        cases n with
        | zero => exact List.mem_singleton.mp hp ▸ hc
        | succ n =>
            rw [splitAfterN_cut hs] at hp
            rcases List.mem_cons.mp hp with rfl | hp
            · rw [List.append_cons]
              exact List.mem_append_left u hc
            · exact List.mem_append_right s (List.mem_cons_of_mem '.' (ih hp))
      · rw [splitAfterN_whole hdot] at hp
        exact List.mem_singleton.mp hp ▸ hc

theorem mem_of_trimDots {c : Char} (h : c ∈ trimDots t) : c ∈ t :=
  (List.dropWhile_suffix _).subset ((List.rdropWhile_prefix _ _).subset h)

theorem mem_of_pieces {domain : Text} (h : DNSGFW.pieces domain = some (p0, p1)) :
    ∃ q0 ∈ splitAfterN '.' 3 domain, ∃ q1 ∈ splitAfterN '.' 3 domain,
      p0 = trimDots q0 ∧ p1 = trimDots q1 := by
  simp only [DNSGFW.pieces] at h
  split at h
  · rename_i q0 q1 hparts
    cases h
    have hsub : [q0, q1] ⊆ splitAfterN '.' 3 domain := by
      rw [← hparts]
      split
      · exact List.drop_subset 1 _
      · exact List.Subset.refl _
    exact ⟨q0, hsub (by simp), q1, hsub (by simp), rfl, rfl⟩
  · cases h

/-- What `Find` compiles for the name of a question is of the fragment. -/
theorem fragment_name (hesc : Escapes special) {name : QName}
    (h : DNSGFW.pieces (name.text special) = some (p0, p1)) :
    InFragment (DNSGFW.ptxt p0 p1) := by
  obtain ⟨q0, hq0, q1, hq1, rfl, rfl⟩ := mem_of_pieces h
  have hparts := fragment_part (n := 3) (name.closed hesc).fragment
  exact fragment_pieces (fragment_trimDots (hparts q0 hq0)) (fragment_trimDots (hparts q1 hq1))

namespace DNSGFW

variable {compile : Compile} {order : List (Text × Text)}

theorem compile_name (hconf : Conforms compile) (hesc : Escapes special) {name : QName}
    (h : pieces (name.text special) = some (p0, p1)) :
    compile (ptxt p0 p1) = (parse (ptxt p0 p1)).map matchString :=
  hconf _ (fragment_name hesc h)

/-- `Find` returns for a name, in whichever order it meets the entries, exactly if the grammar
has the expression that it makes of the last two pieces. -/
theorem find_total_iff (hconf : Conforms compile) (hesc : Escapes special) (d : DNSGFW)
    (name : QName) (order : List (Text × Text)) :
    (∃ t, d.find compile order (name.text special) = some t) ↔
      ∀ p0 p1, pieces (name.text special) = some (p0, p1) → Branches (ptxt p0 p1) := by
  cases hp : pieces (name.text special) with
  | none => exact iff_of_true ⟨_, find_of_pieces_none hp⟩ nofun
  | some p =>
      obtain ⟨p0, p1⟩ := p
      rw [find_of_pieces hp, compile_name hconf hesc hp, Option.map_map]
      constructor
      · rintro ⟨t, ht⟩ q0 q1 hq
        cases hq
        obtain ⟨pattern, hpattern, _⟩ := Option.map_eq_some_iff.mp ht
        exact parse_iff.mp ⟨pattern, hpattern⟩
      · intro h
        obtain ⟨pattern, hpattern⟩ := parse_iff.mpr (h p0 p1 rfl)
        exact ⟨_, Option.map_eq_some_iff.mpr ⟨pattern, hpattern, rfl⟩⟩

/-- A byte that is written as it is, and means itself in an expression. -/
def Ordinary (special : Char → Bool) (b : UInt8) : Prop :=
  32 ≤ b ∧ b ≤ 126 ∧ special (Char.ofNat b.toNat) = false ∧ ¬Special (Char.ofNat b.toNat)

theorem ordinary_text {name : QName} (h : ∀ l ∈ name.labels, ∀ b ∈ l, Ordinary special b) :
    ∀ c ∈ name.text special, ¬Special c := by
  have hdot : ∀ c ∈ ['.'], ¬Special c := by
    intro c hc
    rw [List.mem_singleton.mp hc]
    simp [Special]
  rw [QName.text]
  split
  · exact hdot
  · intro c hc
    obtain ⟨l, hl, hc⟩ := List.mem_flatMap.mp hc
    rcases List.mem_append.mp hc with hc | hc
    · obtain ⟨b, hb, hc⟩ := List.mem_flatMap.mp hc
      obtain ⟨hlow, hhigh, hplain, hspecial⟩ := h l hl b hb
      have hprint : ¬(b < 32 ∨ 126 < b) := by
        simp only [UInt8.lt_iff_toNat_lt, UInt8.le_iff_toNat_le] at hlow hhigh ⊢
        omega
      simp only [presentByte, hplain, Bool.false_eq_true, if_false, if_neg hprint] at hc
      rw [List.mem_singleton.mp hc]
      exact hspecial
    · exact hdot c hc

/-- No name of ordinary bytes makes `Find` panic. -/
theorem find_of_ordinary (hconf : Conforms compile) (hesc : Escapes special) (d : DNSGFW)
    {name : QName} (h : ∀ l ∈ name.labels, ∀ b ∈ l, Ordinary special b) :
    ∃ t, d.find compile order (name.text special) = some t := by
  cases hp : pieces (name.text special) with
  | none => exact ⟨_, find_of_pieces_none hp⟩
  | some p =>
      obtain ⟨p0, p1⟩ := p
      obtain ⟨q0, hq0, q1, hq1, rfl, rfl⟩ := mem_of_pieces hp
      have hchar : ∀ q ∈ splitAfterN '.' 3 (name.text special), ∀ c ∈ trimDots q, ¬Special c :=
        fun q hq c hc => ordinary_text h c (mem_part hq (mem_of_trimDots hc))
      rw [find_of_pieces hp, compile_name hconf hesc hp,
        parse_ptxt (hchar q0 hq0) (hchar q1 hq1)]
      exact ⟨_, rfl⟩

/-- The characters that package dns escapes in a label. -/
def labelSpecial (c : Char) : Bool :=
  c ∈ ['.', ' ', '\'', '@', ';', '(', ')', '"', '\\']

theorem escapes_labelSpecial : Escapes labelSpecial where
  dot := rfl
  opening := rfl
  closing := rfl
  backslash := rfl
  not_letter := by
    intro c hc
    have hmem : c ∈ ['.', ' ', '\'', '@', ';', '(', ')', '"', '\\'] := of_decide_eq_true hc
    simp only [List.mem_cons, List.not_mem_nil, or_false] at hmem
    rcases hmem with rfl | rfl | rfl | rfl | rfl | rfl | rfl | rfl | rfl <;> rfl

/-- `www.google.com.` -/
def wwwName : QName where
  labels := [[119, 119, 119], [103, 111, 111, 103, 108, 101], [99, 111, 109]]
  short := by decide
  total := by decide

/-- `a.[.com.` -/
def bracketName : QName where
  labels := [[97], [91], [99, 111, 109]]
  short := by decide
  total := by decide

/-- The expression of `www.google.com.` is a pattern. -/
theorem find_total_www : ∃ t, new.find Regexp.compile new.list (wwwName.text labelSpecial) =
    some t := by
  refine (find_total_iff conforms_compile escapes_labelSpecial new wwwName new.list).mpr ?_
  intro p0 p1 hp
  have hpieces : pieces (wwwName.text labelSpecial) =
      some (['g', 'o', 'o', 'g', 'l', 'e'], ['c', 'o', 'm']) := by decide
  rw [hpieces] at hp
  cases hp
  have hparse : (parse (ptxt ['g', 'o', 'o', 'g', 'l', 'e'] ['c', 'o', 'm'])).isSome := by
    decide +kernel
  exact parse_iff.mp (Option.isSome_iff_exists.mp hparse)

/-- The bracket in `a.[.com.` is never closed. -/
theorem find_total_bracket : ¬∀ (d : DNSGFW) (name : QName) (order : List (Text × Text)),
    order.Perm d.list → ∃ t, d.find Regexp.compile order (name.text labelSpecial) = some t := by
  intro h
  obtain ⟨t, ht⟩ := h new bracketName new.list (List.Perm.refl _)
  have hnone : new.find Regexp.compile new.list (bracketName.text labelSpecial) = none := by
    decide +kernel
  rw [hnone] at ht
  cases ht

end DNSGFW

end Csocks

end LwipCs
