import LwipCs.Csocks.Gfw
import Mathlib.Data.List.Forall2

/-!
# Which entries a name finds

The expression that `Find` makes of a lower-case name is a text to be found at the end of a
key, with the dots behind the first one standing for any character. It is made of the last
two labels only for three labels, and for two without a final dot.
-/

namespace LwipCs

namespace Csocks

open Regexp

def labelChar (c : Char) : Bool := ('a' ≤ c && c ≤ 'z') || c.isDigit || c = '-'

/-- A label over `[a-z0-9-]`. -/
structure Label where
  text : Text
  ne : text ≠ []
  valid : ∀ c ∈ text, labelChar c = true

/-- Labels with dots between them. -/
def joinDots : List Label → Text
  | [] => []
  | [l] => l.text
  | l :: rest => l.text ++ '.' :: joinDots rest

/-- A name as it is written, with or without the final dot. -/
def nameText (labels : List Label) (dot : Bool) : Text :=
  joinDots labels ++ if dot then ['.'] else []

/-- A key for a base. -/
def baseKey (base : List Label) : Text := '|' :: '|' :: joinDots base

/-- The entry's base is the name or follows a dot in it. -/
def Covers (key name : Text) : Prop :=
  ∃ base : List Label, 2 ≤ base.length ∧ key = baseKey base ∧
    (joinDots base = name ∨ ∃ front, name = front ++ '.' :: joinDots base)

/-- A target that the list holds for the name. -/
def Right (d : DNSGFW) (name target : Text) : Prop :=
  (∃ e ∈ d.list, Covers e.1 name ∧ e.2 = target) ∨
    ((∀ e ∈ d.list, ¬Covers e.1 name) ∧ d.get ['*'] = target)

/-- The pieces of a name that are looked for. -/
def lastPieces : List Label → Bool → Option (Text × Text)
  | [], _ => none
  | [_], false => none
  | [l], true => some (l.text, [])
  | [l, m], false => some (l.text, m.text)
  | [_, m], true => some (m.text, [])
  | _ :: m :: rest, _ => some (m.text, joinDots rest)

/-- The key ends with the first piece, a dot and the second piece, whose dots stand for any
character. -/
def Caught (labels : List Label) (dot : Bool) (key : Text) : Prop :=
  ∃ p0 p1 tail, lastPieces labels dot = some (p0, p1) ∧ p0 ++ '.' :: tail <:+ key ∧
    List.Forall₂ (fun p c => if p = '.' then c ≠ '\n' else c = p) p1 tail

/-! ### Cutting -/

theorem Label.dot_notMem (l : Label) : '.' ∉ l.text := by
  intro h
  exact absurd (l.valid _ h) (by decide)

/-- A text that neither begins nor ends with a dot. -/
def Bare (t : Text) : Prop := t.head? ≠ some '.' ∧ t.getLast? ≠ some '.'

theorem dropWhile_bare {t : Text} (h : t.head? ≠ some '.') : t.dropWhile (· = '.') = t := by
  cases t with
  | nil => rfl
  | cons c t =>
      have hc : c ≠ '.' := by simpa using h
      exact List.dropWhile_cons_of_neg (by simpa using hc)

theorem rdropWhile_bare {t : Text} (h : t.getLast? ≠ some '.') :
    t.rdropWhile (· = '.') = t := by
  rw [List.rdropWhile_eq_self_iff]
  intro hne hlast
  rw [List.getLast?_eq_some_getLast hne] at h
  exact h (congrArg some (of_decide_eq_true hlast))

theorem trimDots_bare {t : Text} (h : Bare t) : trimDots t = t := by
  rw [trimDots, dropWhile_bare h.1, rdropWhile_bare h.2]

theorem trimDots_dot {t : Text} (h : Bare t) : trimDots (t ++ ['.']) = t := by
  cases t with
  | nil => rfl
  | cons c t =>
      have hhead : ((c :: t) ++ ['.']).head? ≠ some '.' := h.1
      rw [trimDots, dropWhile_bare hhead, List.rdropWhile_concat_pos _ _ _ (by simp),
        rdropWhile_bare h.2]

theorem Label.bare (l : Label) : Bare l.text := by
  constructor
  · intro h
    exact l.dot_notMem (List.mem_of_head? h)
  · intro h
    exact l.dot_notMem (List.mem_of_getLast? h)

theorem joinDots_cons {l : Label} {rest : List Label} (h : rest ≠ []) :
    joinDots (l :: rest) = l.text ++ '.' :: joinDots rest := by
  cases rest with
  | nil => exact absurd rfl h
  | cons m rest => rfl

theorem joinDots_ne_nil {labels : List Label} (h : labels ≠ []) : joinDots labels ≠ [] := by
  cases labels with
  | nil => exact absurd rfl h
  | cons l rest =>
      cases rest with
      | nil => exact l.ne
      | cons m rest => simp [joinDots]

theorem joinDots_bare (labels : List Label) : Bare (joinDots labels) := by
  induction labels with
  | nil => exact ⟨nofun, nofun⟩
  | cons l rest ih =>
      by_cases hrest : rest = []
      · subst hrest
        exact l.bare
      · rw [joinDots_cons hrest]
        constructor
        · rw [List.head?_append_of_ne_nil _ l.ne]
          exact l.bare.1
        · rw [List.append_cons, List.getLast?_append_of_ne_nil _ (joinDots_ne_nil hrest)]
          exact ih.2

theorem trimDots_name (labels : List Label) (dot : Bool) :
    trimDots (nameText labels dot) = joinDots labels := by
  cases dot with
  | true => exact trimDots_dot (joinDots_bare labels)
  | false =>
      rw [nameText, if_neg Bool.false_ne_true, List.append_nil]
      exact trimDots_bare (joinDots_bare labels)

theorem nameText_cons (l m : Label) (rest : List Label) (dot : Bool) :
    nameText (l :: m :: rest) dot = l.text ++ '.' :: nameText (m :: rest) dot := by
  rw [nameText, joinDots, nameText, List.append_assoc, List.cons_append]
  nofun

theorem nameText_dot (l : Label) : nameText [l] true = l.text ++ '.' :: [] := rfl

theorem nameText_plain (l : Label) : nameText [l] false = l.text := List.append_nil _

theorem pieces_of_one {domain part : Text} (h : splitAfterN '.' 3 domain = [part]) :
    DNSGFW.pieces domain = none := by
  simp [DNSGFW.pieces, h]

theorem pieces_of_two {domain part part' : Text} (h : splitAfterN '.' 3 domain = [part, part']) :
    DNSGFW.pieces domain = some (trimDots part, trimDots part') := by
  simp [DNSGFW.pieces, h]

theorem pieces_of_three {domain first part part' : Text}
    (h : splitAfterN '.' 3 domain = [first, part, part']) :
    DNSGFW.pieces domain = some (trimDots part, trimDots part') := by
  simp [DNSGFW.pieces, h]

theorem trimDots_label (l : Label) : trimDots (l.text ++ ['.']) = l.text := trimDots_dot l.bare

/-- `Find` cuts these pieces out of the name. -/
theorem pieces_nameText {labels : List Label} (h : labels ≠ []) (dot : Bool) :
    DNSGFW.pieces (nameText labels dot) = lastPieces labels dot := by
  match labels, dot with
  | [], _ => exact absurd rfl h
  | [l], false =>
      rw [nameText_plain, pieces_of_one (splitAfterN_whole l.dot_notMem)]
      rfl
  | [l], true =>
      rw [nameText_dot, pieces_of_two (splitAfterN_cut l.dot_notMem), trimDots_label]
      rfl
  | [l, m], false =>
      have hsplit : splitAfterN '.' 3 (l.text ++ '.' :: m.text) = [l.text ++ ['.'], m.text] := by
        rw [splitAfterN_cut l.dot_notMem, splitAfterN_whole m.dot_notMem]
      rw [nameText_cons, nameText_plain, pieces_of_two hsplit, trimDots_label,
        trimDots_bare m.bare]
      rfl
  | [l, m], true =>
      have hsplit : splitAfterN '.' 3 (l.text ++ '.' :: (m.text ++ '.' :: [])) =
          [l.text ++ ['.'], m.text ++ ['.'], []] := by
        rw [splitAfterN_cut l.dot_notMem, splitAfterN_cut m.dot_notMem]
        rfl
      rw [nameText_cons, nameText_dot, pieces_of_three hsplit, trimDots_label]
      rfl
  | l :: m :: n :: rest, dot =>
      have hsplit :
          splitAfterN '.' 3 (l.text ++ '.' :: (m.text ++ '.' :: nameText (n :: rest) dot)) =
          [l.text ++ ['.'], m.text ++ ['.'], nameText (n :: rest) dot] := by
        rw [splitAfterN_cut l.dot_notMem, splitAfterN_cut m.dot_notMem]
        rfl
      rw [nameText_cons, nameText_cons, pieces_of_three hsplit,
        trimDots_label, trimDots_name]
      rfl

/-! ### The expression -/

/-- What a character of the second piece stands for. -/
def setOf (c : Char) : CharSet := if c = '.' then .dot else .single c

/-- What is looked for at the end of a key. -/
def wanted (p0 p1 : Text) : List CharSet :=
  p0.map CharSet.single ++ CharSet.single '.' :: p1.map setOf

theorem single_contains {c d : Char} : (CharSet.single c).contains d = true ↔ d = c := by
  simp only [CharSet.contains, CharSet.single, ClassItem.contains, List.any_cons, List.any_nil,
    Bool.or_false, Bool.false_bne, Bool.and_eq_true, decide_eq_true_eq]
  exact ⟨fun h => Char.le_antisymm h.2 h.1, fun h => h ▸ ⟨Char.le_refl _, Char.le_refl _⟩⟩

theorem dot_contains {d : Char} : CharSet.dot.contains d = true ↔ d ≠ '\n' := by
  have hitem : ClassItem.contains d (.range '\n' '\n') = true ↔ d = '\n' := by
    simpa [CharSet.contains, CharSet.single] using single_contains (c := '\n') (d := d)
  rw [Ne, ← hitem]
  simp [CharSet.contains, CharSet.dot]

theorem setOf_contains {c d : Char} :
    (setOf c).contains d = true ↔ if c = '.' then d ≠ '\n' else d = c := by
  unfold setOf
  split
  · exact dot_contains
  · exact single_contains

/-- Plain text of a piece. -/
def Plain (t : Text) : Prop := ∀ c ∈ t, labelChar c = true ∨ c = '.'

theorem charAtom_plain {c : Char} (h : labelChar c = true ∨ c = '.') :
    charAtom c = .set (setOf c) := by
  by_cases hdot : c = '.'
  · subst hdot
    rfl
  · have hc := h.resolve_right hdot
    have hstart : c ≠ '^' := by
      rintro rfl
      exact absurd hc (by decide)
    have hstop : c ≠ '$' := by
      rintro rfl
      exact absurd hc (by decide)
    rw [charAtom, if_neg hdot, if_neg hstart, if_neg hstop, setOf, if_neg hdot]

theorem not_special {c : Char} (h : labelChar c = true ∨ c = '.') : ¬Special c := by
  intro hspecial
  simp only [Special, List.mem_cons, List.not_mem_nil, or_false] at hspecial
  rcases hspecial with rfl | rfl | rfl | rfl | rfl | rfl | rfl <;> revert h <;> decide

theorem map_charAtom {t : Text} (h : Plain t) :
    t.map (fun c => once (charAtom c)) = (t.map setOf).map fun s => once (.set s) := by
  rw [List.map_map]
  exact List.map_congr_left fun c hc => congrArg once (charAtom_plain (h c hc))

theorem map_setOf_label (l : Label) : l.text.map setOf = l.text.map CharSet.single := by
  refine List.map_congr_left fun c hc => if_neg ?_
  rintro rfl
  exact l.dot_notMem hc

theorem label_plain (l : Label) : Plain l.text := fun c hc => Or.inl (l.valid c hc)

theorem joinDots_plain (labels : List Label) : Plain (joinDots labels) := by
  induction labels with
  | nil => nofun
  | cons l rest ih =>
      by_cases hrest : rest = []
      · subst hrest
        exact label_plain l
      · rw [joinDots_cons hrest]
        intro c hc
        rcases List.mem_append.mp hc with hc | hc
        · exact label_plain l c hc
        · rcases List.mem_cons.mp hc with rfl | hc
          · exact Or.inr rfl
          · exact ih c hc

/-- The expression of a label and plain text. -/
theorem parse_wanted (l : Label) {p1 : Text} (h : Plain p1) :
    parse (DNSGFW.ptxt l.text p1) = some [DNSGFW.lead ::
      ((wanted l.text p1).map (fun s => once (.set s)) ++ [once .stop])] := by
  rw [DNSGFW.parse_ptxt (fun c hc => not_special (label_plain l c hc))
    fun c hc => not_special (h c hc), map_charAtom h, map_charAtom (label_plain l),
    map_setOf_label]
  simp [wanted]

theorem fragment_ptxt (l : Label) {p1 : Text} (h : Plain p1) :
    InFragment (DNSGFW.ptxt l.text p1) := by
  have plain : ∀ c, labelChar c = true ∨ c = '.' → c ∉ ['(', ')', '\\'] := by
    intro c hc hmem
    simp only [List.mem_cons, List.not_mem_nil, or_false] at hmem
    rcases hmem with rfl | rfl | rfl <;> revert hc <;> decide
  have hhead : ['[', '\\', '|', '\\', '.', ']', '*'].foldlM scanStep false = some false := by decide
  have hdot : ['\\', '.'].foldlM scanStep false = some false := by decide
  have hstop : ['$'].foldlM scanStep false = some false := by decide
  rw [InFragment, DNSGFW.ptxt, List.foldlM_append, List.foldlM_append, List.foldlM_append,
    List.foldlM_append, hhead]
  simp only [Option.bind_eq_bind, Option.bind_some,
    scan_text fun c hc => plain c (label_plain l c hc), hdot,
    scan_text fun c hc => plain c (h c hc), hstop, Option.isSome_some]

/-! ### What is found -/

theorem forall₂_wanted {p0 p1 u : Text} :
    List.Forall₂ (fun s c => s.contains c = true) (wanted p0 p1) u ↔
      ∃ tail, u = p0 ++ '.' :: tail ∧
        List.Forall₂ (fun p c => if p = '.' then c ≠ '\n' else c = p) p1 tail := by
  induction p0 generalizing u with
  | nil =>
      rw [wanted, List.map_nil, List.nil_append, List.forall₂_cons_left_iff]
      simp only [single_contains, List.forall₂_map_left_iff, setOf_contains]
      constructor
      · rintro ⟨c, tail, rfl, htail, rfl⟩
        exact ⟨tail, rfl, htail⟩
      · rintro ⟨tail, rfl, htail⟩
        exact ⟨'.', tail, rfl, htail, rfl⟩
  | cons c p0 ih =>
      have hwanted : wanted (c :: p0) p1 = CharSet.single c :: wanted p0 p1 := rfl
      rw [hwanted, List.forall₂_cons_left_iff]
      simp only [single_contains, ih]
      constructor
      · rintro ⟨d, v, rfl, ⟨tail, rfl, htail⟩, rfl⟩
        exact ⟨tail, rfl, htail⟩
      · rintro ⟨tail, rfl, htail⟩
        exact ⟨c, p0 ++ '.' :: tail, rfl, ⟨tail, rfl, htail⟩, rfl⟩

/-- The pieces are those of a label and plain text. -/
theorem lastPieces_label {labels : List Label} {dot : Bool} {p0 p1 : Text}
    (h : lastPieces labels dot = some (p0, p1)) : ∃ l : Label, p0 = l.text ∧ Plain p1 := by
  match labels, dot with
  | [l], true =>
      cases h
      exact ⟨l, rfl, nofun⟩
  | [l, m], false =>
      cases h
      exact ⟨l, rfl, label_plain m⟩
  | [_, m], true =>
      cases h
      exact ⟨m, rfl, nofun⟩
  | _ :: m :: n :: rest, _ =>
      cases h
      exact ⟨m, rfl, joinDots_plain (n :: rest)⟩

variable {compile : Compile} {labels : List Label} {dot : Bool}

/-- The keys that the expression matches are the caught ones. -/
theorem compile_ptxt (hconf : Conforms compile) {p0 p1 : Text}
    (h : lastPieces labels dot = some (p0, p1)) :
    ∃ found, compile (DNSGFW.ptxt p0 p1) = some found ∧
      ∀ key, found key = true ↔ Caught labels dot key := by
  obtain ⟨l, rfl, hplain⟩ := lastPieces_label h
  refine ⟨_, (hconf _ (fragment_ptxt l hplain)).trans
    (by rw [Regexp.compile, parse_wanted l hplain, Option.map_some]), ?_⟩
  intro key
  rw [matchString_suffix rfl]
  constructor
  · rintro ⟨u, hu, hall⟩
    obtain ⟨tail, rfl, htail⟩ := forall₂_wanted.mp hall
    exact ⟨_, p1, tail, h, hu, htail⟩
  · rintro ⟨q0, q1, tail, hq, hu, htail⟩
    rw [h] at hq
    cases hq
    exact ⟨_, hu, forall₂_wanted.mpr ⟨tail, rfl, htail⟩⟩

theorem not_caught_of_none (h : lastPieces labels dot = none) (key : Text) :
    ¬Caught labels dot key := by
  rintro ⟨p0, p1, _, hp, _⟩
  rw [h] at hp
  cases hp

/-- The results over all orders: the targets of the caught keys, or that of `*`. -/
theorem find_cases (hconf : Conforms compile) (hne : labels ≠ []) {d : DNSGFW}
    {order : List (Text × Text)} (horder : order.Perm d.list) :
    (∃ e ∈ d.list, Caught labels dot e.1 ∧
        d.find compile order (nameText labels dot) = some e.2) ∨
      ((∀ e ∈ d.list, ¬Caught labels dot e.1) ∧
        d.find compile order (nameText labels dot) = some (d.get ['*'])) := by
  have hpieces := pieces_nameText hne dot
  cases hp : lastPieces labels dot with
  | none =>
      rw [hp] at hpieces
      exact Or.inr ⟨fun e _ => not_caught_of_none hp e.1, DNSGFW.find_of_pieces_none hpieces⟩
  | some p =>
      obtain ⟨p0, p1⟩ := p
      rw [hp] at hpieces
      obtain ⟨found, hfound, hcaught⟩ := compile_ptxt hconf hp
      rw [DNSGFW.find_of_pieces hpieces, hfound, Option.map_some]
      obtain ⟨e, he, hmatch, htarget⟩ | ⟨hnone, htarget⟩ := DNSGFW.search_cases found horder
      · exact Or.inl ⟨e, he, (hcaught e.1).mp hmatch, congrArg some htarget⟩
      · refine Or.inr ⟨?_, congrArg some htarget⟩
        intro e he hcatch
        exact Bool.noConfusion ((hnone e he).symm.trans ((hcaught e.1).mpr hcatch))

/-- A caught entry can be the result. -/
theorem find_of_caught (hconf : Conforms compile) (hne : labels ≠ []) {d : DNSGFW}
    {e : Text × Text} (he : e ∈ d.list) (hcaught : Caught labels dot e.1) :
    ∃ order, order.Perm d.list ∧ d.find compile order (nameText labels dot) = some e.2 := by
  obtain ⟨p0, p1, tail, hp, hrest⟩ := id hcaught
  obtain ⟨found, hfound, hiff⟩ := compile_ptxt hconf hp
  obtain ⟨order, horder, rest, rfl⟩ := DNSGFW.exists_order he
  refine ⟨_, horder, ?_⟩
  rw [DNSGFW.find_of_pieces ((pieces_nameText hne dot).trans hp), hfound, Option.map_some,
    DNSGFW.search_cons ((hiff e.1).mpr hcaught)]

namespace DNSGFW

/-- Every result for the name is right, exactly if the targets of all caught keys are and,
if no key is caught, that of `*` is. -/
theorem find_right_iff (hconf : Conforms compile) (d : DNSGFW) (hne : labels ≠ []) :
    (∀ order, order.Perm d.list → ∃ t, d.find compile order (nameText labels dot) = some t ∧
      Right d (joinDots labels) t) ↔
    (∀ e ∈ d.list, Caught labels dot e.1 → Right d (joinDots labels) e.2) ∧
      ((∀ e ∈ d.list, ¬Caught labels dot e.1) → Right d (joinDots labels) (d.get ['*'])) := by
  constructor
  · intro h
    constructor
    · intro e he hcaught
      obtain ⟨order, horder, hfind⟩ := find_of_caught hconf hne he hcaught
      obtain ⟨t, ht, hright⟩ := h order horder
      rw [hfind] at ht
      cases ht
      exact hright
    · intro hnone
      obtain ⟨t, ht, hright⟩ := h d.list (List.Perm.refl _)
      obtain ⟨e, he, hcaught, _⟩ | ⟨_, hfind⟩ := find_cases hconf hne (List.Perm.refl d.list)
      · exact absurd hcaught (hnone e he)
      · rw [hfind] at ht
        cases ht
        exact hright
  · rintro ⟨hcaught, hnone⟩ order horder
    obtain ⟨e, he, hcatch, hfind⟩ | ⟨hfree, hfind⟩ := find_cases hconf hne horder
    · exact ⟨e.2, hfind, hcaught e he hcatch⟩
    · exact ⟨_, hfind, hnone hfree⟩

/-- All orders have one result for the name, exactly if all entries with caught keys have one
target. -/
theorem find_alike_iff (hconf : Conforms compile) (d : DNSGFW) (hne : labels ≠ []) :
    (∀ order order', order.Perm d.list → order'.Perm d.list →
      d.find compile order (nameText labels dot) = d.find compile order' (nameText labels dot)) ↔
    ∀ e ∈ d.list, ∀ e' ∈ d.list, Caught labels dot e.1 → Caught labels dot e'.1 → e.2 = e'.2 := by
  constructor
  · intro h e he e' he' hcaught hcaught'
    obtain ⟨order, horder, hfind⟩ := find_of_caught hconf hne he hcaught
    obtain ⟨order', horder', hfind'⟩ := find_of_caught hconf hne he' hcaught'
    have heq := h order order' horder horder'
    rw [hfind, hfind'] at heq
    exact Option.some.inj heq
  · intro h order order' horder horder'
    obtain ⟨e, he, hcaught, hfind⟩ | ⟨hnone, hfind⟩ := find_cases hconf hne horder
    · obtain ⟨e', he', hcaught', hfind'⟩ | ⟨hnone', _⟩ := find_cases hconf hne horder'
      · rw [hfind, hfind', h e he e' he' hcaught hcaught']
      · exact absurd hcaught (hnone' e he)
    · obtain ⟨e', he', hcaught', _⟩ | ⟨_, hfind'⟩ := find_cases hconf hne horder'
      · exact absurd hcaught' (hnone e' he')
      · rw [hfind, hfind']

/-- The keys that the list is meant for. -/
def Listed (d : DNSGFW) : Prop :=
  ∀ e ∈ d.list, e.1 = ['*'] ∨ ∃ base : List Label, 2 ≤ base.length ∧ e.1 = baseKey base

def www : Label := ⟨['w', 'w', 'w'], by decide, List.all_eq_true.mp (by decide)⟩

def google : Label := ⟨['g', 'o', 'o', 'g', 'l', 'e'], by decide, List.all_eq_true.mp (by decide)⟩

def com : Label := ⟨['c', 'o', 'm'], by decide, List.all_eq_true.mp (by decide)⟩

def proxy : Text := ['p', 'r', 'o', 'x', 'y']

def direct : Text := ['d', 'n', 's', ':', '/', '/', 'l', 'o', 'c', 'a', 'l']

/-- A list with one base. -/
def oneBase : DNSGFW := built [(baseKey [google, com], proxy)]

theorem oneBase_list : oneBase.list = [(baseKey [google, com], proxy), (['*'], direct)] := by
  decide

theorem star_not_covers (name : Text) : ¬Covers ['*'] name := by
  rintro ⟨base, _, hkey, _⟩
  cases hkey

theorem star_not_caught (labels : List Label) (dot : Bool) : ¬Caught labels dot ['*'] := by
  rintro ⟨p0, p1, tail, _, hsuffix, _⟩
  have hdot : '.' ∈ ['*'] := hsuffix.subset (by simp)
  exact absurd hdot (by decide)

/-- `www.google.com` finds its base, from either end of the list. -/
theorem find_right_www :
    (∃ t, oneBase.find Regexp.compile oneBase.list (nameText [www, google, com] false) = some t ∧
      Right oneBase (joinDots [www, google, com]) t) ∧
    ∃ t, oneBase.find Regexp.compile oneBase.list.reverse (nameText [www, google, com] false) =
      some t ∧ Right oneBase (joinDots [www, google, com]) t := by
  have hcovers : Covers (baseKey [google, com]) (joinDots [www, google, com]) :=
    ⟨[google, com], by decide, rfl, Or.inr ⟨www.text, rfl⟩⟩
  have hright : Right oneBase (joinDots [www, google, com]) proxy :=
    Or.inl ⟨(baseKey [google, com], proxy), by simp [oneBase_list], hcovers, rfl⟩
  have hcaught : Caught [www, google, com] false (baseKey [google, com]) :=
    ⟨google.text, com.text, com.text, rfl, ⟨['|', '|'], rfl⟩, by decide⟩
  have hall : ∀ order, order.Perm oneBase.list →
      ∃ t, oneBase.find Regexp.compile order (nameText [www, google, com] false) = some t ∧
        Right oneBase (joinDots [www, google, com]) t := by
    refine (find_right_iff conforms_compile oneBase (by simp)).mpr ⟨?_, ?_⟩
    · intro e he hcatch
      rw [oneBase_list] at he
      simp only [List.mem_cons, List.not_mem_nil, or_false] at he
      rcases he with rfl | rfl
      · exact hright
      · exact absurd hcatch (star_not_caught _ _)
    · intro hnone
      exact absurd hcaught (hnone (baseKey [google, com], proxy) (by simp [oneBase_list]))
  exact ⟨hall _ (List.Perm.refl _), hall _ (List.reverse_perm _)⟩

/-- With the final dot, `google.com.` does not. -/
theorem find_right_dot : ¬∀ (d : DNSGFW) (labels : List Label) (dot : Bool), Listed d →
    labels ≠ [] → ∀ order, order.Perm d.list →
      ∃ t, d.find Regexp.compile order (nameText labels dot) = some t ∧
        Right d (joinDots labels) t := by
  intro h
  have hlisted : Listed oneBase := by
    intro e he
    rw [oneBase_list] at he
    simp only [List.mem_cons, List.not_mem_nil, or_false] at he
    rcases he with rfl | rfl
    · exact Or.inr ⟨[google, com], by decide, rfl⟩
    · exact Or.inl rfl
  have hfind : oneBase.find Regexp.compile oneBase.list (nameText [google, com] true) =
      some direct := by decide +kernel
  have hcovers : Covers (baseKey [google, com]) (joinDots [google, com]) :=
    ⟨[google, com], by decide, rfl, Or.inl rfl⟩
  obtain ⟨t, ht, hright⟩ := h oneBase [google, com] true hlisted (by simp) _ (List.Perm.refl _)
  rw [hfind] at ht
  cases ht
  rw [Right, oneBase_list] at hright
  rcases hright with ⟨e, he, hcover, htarget⟩ | ⟨hnone, _⟩
  · simp only [List.mem_cons, List.not_mem_nil, or_false] at he
    rcases he with rfl | rfl
    · cases htarget
    · exact star_not_covers _ hcover
  · exact hnone (baseKey [google, com], proxy) (by simp) hcovers

end DNSGFW

end Csocks

end LwipCs
