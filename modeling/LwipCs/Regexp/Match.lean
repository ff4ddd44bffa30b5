import LwipCs.Regexp.Grammar

/-!
# Searching a text for a pattern

`MatchString` asks whether the pattern matches anywhere in the text, so a pattern that ends
with `$` looks for a suffix.
-/

namespace Regexp

/-- A position in a text: whether it is the first one, and the text behind it. -/
structure Cursor where
  first : Bool
  rest : List Char
  deriving DecidableEq, Repr

def Atom.step : Atom → Cursor → Option Cursor
  | .set s, k =>
      match k.rest with
      | [] => none
      | c :: t => if s.contains c then some ⟨false, t⟩ else none
  | .start, k => if k.first then some k else none
  | .stop, k => if k.rest = [] then some k else none

def Atom.steps (a : Atom) : Nat → Cursor → Option Cursor
  | 0, k => some k
  | n + 1, k => (a.step k).bind (a.steps n)

/-- Where the piece may end. Without a bound there is no need to repeat it more often than there
are characters left. -/
def Piece.ends (p : Piece) (k : Cursor) : List Cursor :=
  let more := match p.max with
    | some n => n - p.min
    | none => k.rest.length
  (List.range (more + 1)).filterMap fun n => p.atom.steps (p.min + n) k

def matchesAt : List Piece → Cursor → Bool
  | [], _ => true
  | p :: rest, k => (p.ends k).any (matchesAt rest)

/-- All positions of the text. -/
def cursors : Bool → List Char → List Cursor
  | first, [] => [⟨first, []⟩]
  | first, c :: t => ⟨first, c :: t⟩ :: cursors false t

def matchString (p : Pattern) (t : List Char) : Bool :=
  (cursors true t).any fun k => p.any fun branch => matchesAt branch k

/-- `regexp.Compile`, with `MatchString` of the result. -/
def compile (t : List Char) : Option (List Char → Bool) := (parse t).map matchString

/-- Whether the next character is escaped. -/
def scanStep (escaped : Bool) (c : Char) : Option Bool :=
  if escaped then if c.isAlpha then none else some false
  else if c = '(' ∨ c = ')' then none
  else some (c = '\\')

/-- The texts for which the syntax is given: no group, and no letter behind a backslash. -/
def InFragment (t : List Char) : Prop := (t.foldlM scanStep false).isSome

/-- An implementation of `regexp.Compile` that agrees on these texts. -/
def Conforms (impl : List Char → Option (List Char → Bool)) : Prop :=
  ∀ t, InFragment t → impl t = compile t

theorem conforms_compile : Conforms compile := fun _ _ => rfl

def once (a : Atom) : Piece := ⟨a, 1, some 1⟩

variable {k k' : Cursor} {t : List Char} {p : Piece} {rest : List Piece}

/-! ### Texts of the fragment -/

theorem scanStep_text {c : Char} (hopen : c ≠ '(') (hclose : c ≠ ')') :
    scanStep false c = some (decide (c = '\\')) := by
  rw [scanStep, if_neg Bool.false_ne_true, if_neg (by simp [hopen, hclose])]

/-- Text without parentheses and backslashes. -/
theorem scan_text {s : List Char} (hs : ∀ c ∈ s, c ∉ ['(', ')', '\\']) :
    s.foldlM scanStep false = some false := by
  induction s with
  | nil => rfl
  | cons c s ih =>
      have hc := hs c List.mem_cons_self
      simp only [List.mem_cons, List.not_mem_nil, or_false, not_or] at hc
      rw [List.foldlM_cons, scanStep_text hc.1 hc.2.1]
      simpa [hc.2.2] using ih fun d hd => hs d (List.mem_cons_of_mem c hd)

/-! ### Parsing atom by atom -/

/-- An ordinary character, `.`, `^` or `$`. -/
theorem parse_char {c : Char} (hc : ¬Special c)
    (ht : Unrepeated t) : parse (c :: t) = (parse t).map (consPiece (once (charAtom c))) := by
  have hatom : AtomAt (c :: t) t := .char hc
  rw [parse_piece (List.cons_ne_nil c t) hatom.ne_bar, readAtom_char hc, Option.bind_some,
    readRepetition_once ht, Option.bind_some]
  rfl

/-- An escaped punctuation character. -/
theorem parse_punct {c : Char} (hascii : c.toNat < 128) (hc : c.isAlphanum = false)
    (ht : Unrepeated t) :
    parse ('\\' :: c :: t) = (parse t).map (consPiece (once (.set (.single c)))) := by
  have hatom : readAtom ('\\' :: c :: t) = some (.set (.single c), t) := by
    simp only [readAtom, readEscape_punct hascii hc, Option.map_some]
  have hbar : ('\\' :: c :: t).head? ≠ some '|' := by simp
  rw [parse_piece (List.cons_ne_nil _ _) hbar, hatom, Option.bind_some, readRepetition_once ht,
    Option.bind_some]
  rfl

theorem unrepeated_cons {c : Char} (hc : ¬Special c) : Unrepeated (c :: t) := by
  intro d hd hop
  obtain rfl : c = d := by simpa using hd
  apply hc
  simp only [List.mem_cons, List.not_mem_nil, or_false] at hop
  rcases hop with rfl | rfl | rfl | rfl <;> simp [Special]

theorem unrepeated_append {s : List Char} (hs : ∀ c ∈ s, ¬Special c) (ht : Unrepeated t) :
    Unrepeated (s ++ t) := by
  cases s with
  | nil => exact ht
  | cons c s => exact unrepeated_cons (hs c List.mem_cons_self)

/-- A text of ordinary characters. -/
theorem parse_chars {s : List Char} (hs : ∀ c ∈ s, ¬Special c) (ht : Unrepeated t) :
    parse (s ++ t) =
      (parse t).map fun q => (s.map fun c => once (charAtom c)).foldr consPiece q := by
  induction s with
  | nil => exact Option.map_id'.symm
  | cons c s ih =>
      have hrest : ∀ d ∈ s, ¬Special d := fun d hd => hs d (List.mem_cons_of_mem c hd)
      have hnext : Unrepeated (s ++ t) := unrepeated_append hrest ht
      rw [List.cons_append, parse_char (hs c List.mem_cons_self) hnext,
        ih hrest, Option.map_map]
      rfl

theorem foldr_consPiece (ps : List Piece) (branch : List Piece) :
    ps.foldr consPiece [branch] = [ps ++ branch] := by
  induction ps with
  | nil => rfl
  | cons p ps ih => rw [List.foldr_cons, ih]; rfl

/-- The bracket `[\|\.]`, repeated any number of times. -/
theorem parse_dots (ht : t.head? ≠ some '?') :
    parse (['[', '\\', '|', '\\', '.', ']', '*'] ++ t) = (parse t).map
      (consPiece ⟨.set ⟨false, [.range '|' '|', .range '.' '.']⟩, 0, none⟩) := by
  have hatom : readAtom (['[', '\\', '|', '\\', '.', ']', '*'] ++ t) =
      some (.set ⟨false, [.range '|' '|', .range '.' '.']⟩, '*' :: t) := rfl
  have hlazy : skipLazy t = t := by
    unfold skipLazy
    split
    · exact absurd rfl ht
    · rfl
  rw [parse_piece (by simp) (by simp), hatom, Option.bind_some]
  simp only [readRepetition, hlazy, Option.bind_some]

/-! ### Searching -/

theorem mem_cursors {first : Bool} : k ∈ cursors first t → k.rest <:+ t := by
  induction t generalizing first with
  | nil =>
      intro h
      obtain rfl := List.mem_singleton.mp h
      exact List.suffix_refl _
  | cons c t ih =>
      intro h
      rcases List.mem_cons.mp h with rfl | h
      · exact List.suffix_refl _
      · exact (ih h).trans (List.suffix_cons c t)

/-- Every suffix is behind some position. -/
theorem exists_cursor {first : Bool} {u : List Char} (h : u <:+ t) :
    ∃ k ∈ cursors first t, k.rest = u := by
  induction t generalizing first with
  | nil => exact ⟨⟨first, []⟩, List.mem_cons_self, (List.suffix_nil.mp h).symm⟩
  | cons c t ih =>
      rcases List.suffix_cons_iff.mp h with rfl | h
      · exact ⟨⟨first, c :: t⟩, List.mem_cons_self, rfl⟩
      · obtain ⟨k, hk, hrest⟩ := ih h
        exact ⟨k, List.mem_cons_of_mem _ hk, hrest⟩

theorem step_suffix {a : Atom} (h : a.step k = some k') : k'.rest <:+ k.rest := by
  unfold Atom.step at h
  split at h
  · split at h
    · cases h
    · rename_i c t hrest
      split at h
      · cases h
        rw [hrest]
        exact List.suffix_cons c t
      · cases h
  · split at h
    · cases h
      exact List.suffix_refl _
    · cases h
  · split at h
    · cases h
      exact List.suffix_refl _
    · cases h

theorem steps_suffix {a : Atom} {n : Nat} (h : a.steps n k = some k') : k'.rest <:+ k.rest := by
  induction n generalizing k with
  | zero =>
      cases h
      exact List.suffix_refl _
  | succ n ih =>
      obtain ⟨j, hj, h⟩ := Option.bind_eq_some_iff.mp h
      exact (ih h).trans (step_suffix hj)

/-- A piece leads on in the text. -/
theorem ends_suffix (h : k' ∈ p.ends k) : k'.rest <:+ k.rest := by
  obtain ⟨n, _, hn⟩ := List.mem_filterMap.mp h
  exact steps_suffix hn

/-- A piece that may be left out ends where it begins. -/
theorem mem_ends_of_optional (h : p.min = 0) : k ∈ p.ends k := by
  apply List.mem_filterMap.mpr
  refine ⟨0, List.mem_range.mpr (Nat.succ_pos _), ?_⟩
  rw [h]
  rfl

theorem matchesAt_once (a : Atom) (k : Cursor) :
    matchesAt (once a :: rest) k = (a.step k).any (matchesAt rest) := by
  have hends : (once a).ends k = (a.step k).toList := by
    cases h : a.step k <;> simp [Piece.ends, once, Atom.steps, h]
  rw [matchesAt, hends]
  cases a.step k <;> simp

/-- Sets up to the end of the text, each for one character. -/
theorem matchesAt_sets {sets : List CharSet} : matchesAt
    (sets.map (fun s => once (.set s)) ++ [once .stop]) k = true ↔
      List.Forall₂ (fun s c => s.contains c = true) sets k.rest := by
  induction sets generalizing k with
  | nil =>
      rw [List.map_nil, List.nil_append, matchesAt_once]
      cases hrest : k.rest with
      | nil => simp [Atom.step, hrest, matchesAt]
      | cons c t =>
          refine iff_of_false ?_ nofun
          simp [Atom.step, hrest]
  | cons s sets ih =>
      rw [List.map_cons, List.cons_append, matchesAt_once]
      cases hrest : k.rest with
      | nil =>
          refine iff_of_false ?_ nofun
          simp [Atom.step, hrest]
      | cons c t =>
          rw [List.forall₂_cons, ← ih (k := ⟨false, t⟩)]
          by_cases hc : s.contains c = true
          · simp [Atom.step, hrest, hc]
          · simp [Atom.step, hrest, hc]

/-- An optional piece and then sets up to the end: a search for a suffix. -/
theorem matchString_suffix {sets : List CharSet} (hp : p.min = 0) :
    matchString [p :: (sets.map (fun s => once (.set s)) ++ [once .stop])] t = true ↔
      ∃ u, u <:+ t ∧ List.Forall₂ (fun s c => s.contains c = true) sets u := by
  simp only [matchString, List.any_cons, List.any_nil, Bool.or_false, List.any_eq_true]
  constructor
  · rintro ⟨k, hk, hmatch⟩
    obtain ⟨k', hends, hmatch⟩ := List.any_eq_true.mp hmatch
    exact ⟨k'.rest, (ends_suffix hends).trans (mem_cursors hk), matchesAt_sets.mp hmatch⟩
  · rintro ⟨u, hu, hall⟩
    obtain ⟨k, hk, rfl⟩ : ∃ k ∈ cursors true t, k.rest = u := exists_cursor hu
    exact ⟨k, hk, List.any_eq_true.mpr ⟨k, mem_ends_of_optional hp, matchesAt_sets.mpr hall⟩⟩

end Regexp
