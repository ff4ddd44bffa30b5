import LwipCs.Csocks.Route
import LwipCs.Regexp.Match
import Mathlib.Data.List.DropRight

/-!
# The GFW list

`DNSGFW` maps patterns of domains to targets. `Find` cuts the domain at its first two
dots, makes a regular expression of the last two pieces and returns the target of the first
key it meets that the expression matches. Go iterates over a map in any order, which is an
argument here, and so is `regexp.Compile`.
-/

namespace LwipCs

namespace Csocks

/-- `regexp.Compile`, `none` for an error, with `MatchString` of its result. -/
abbrev Compile := Text → Option (Text → Bool)

/-- `strings.SplitAfterN` for a separator of one character. -/
def splitAfterN (sep : Char) : Nat → Text → List Text
  | 0, _ => []
  | 1, s => [s]
  | n + 2, s =>
      if sep ∈ s then
        (s.takeWhile (· ≠ sep) ++ [sep]) :: splitAfterN sep (n + 1) (s.dropWhile (· ≠ sep)).tail
      else [s]

theorem splitAfterN_cut {sep : Char} {n : Nat} {s rest : Text} (h : sep ∉ s) :
    splitAfterN sep (n + 2) (s ++ sep :: rest) = (s ++ [sep]) :: splitAfterN sep (n + 1) rest := by
  have hne : ∀ c ∈ s, decide (c ≠ sep) = true := by
    intro c hc
    exact decide_eq_true fun heq => h (heq ▸ hc)
  rw [splitAfterN, if_pos (by simp), List.takeWhile_append_of_pos hne,
    List.dropWhile_append_of_pos hne]
  simp

theorem splitAfterN_whole {sep : Char} {n : Nat} {s : Text} (h : sep ∉ s) :
    splitAfterN sep (n + 1) s = [s] := by
  cases n with
  | zero => rfl
  | succ n => rw [splitAfterN, if_neg h]

/-- `strings.Trim(p, ".")`. -/
def trimDots (p : Text) : Text := (p.dropWhile (· = '.')).rdropWhile (· = '.')

/-- `DNSGFW`: the entries of a map, each key once. -/
structure DNSGFW where
  list : List (Text × Text)
  nodup : (list.map Prod.fst).Nodup

namespace DNSGFW

/-- `NewDNSGFW`. -/
def new : DNSGFW :=
  ⟨[(['*'], ['d', 'n', 's', ':', '/', '/', 'l', 'o', 'c', 'a', 'l'])], by simp⟩

/-- `d.list[list] = target`. -/
def add (d : DNSGFW) (list target : Text) : DNSGFW where
  list := (list, target) :: d.list.filter fun e => e.1 ≠ list
  nodup := by
    refine List.nodup_cons.mpr ⟨?_, (List.filter_sublist.map _).nodup d.nodup⟩
    intro h
    obtain ⟨e, he, heq⟩ := List.mem_map.mp h
    simpa [heq] using (List.mem_filter.mp he).2

/-- `NewDNSGFW` and then calls of `Add`. -/
def built (adds : List (Text × Text)) : DNSGFW :=
  adds.foldl (fun d e => d.add e.1 e.2) new

/-- `d.list[key]`, the empty text if there is no such key. -/
def get (d : DNSGFW) (key : Text) : Text := (d.list.lookup key).getD []

/-- The two pieces of the domain that `Find` puts into its expression, `none` if there are fewer
than two. -/
def pieces (domain : Text) : Option (Text × Text) :=
  let parts := splitAfterN '.' 3 domain
  match if parts.length = 3 then parts.drop 1 else parts with
  | [p0, p1] => some (trimDots p0, trimDots p1)
  | _ => none

/-- `fmt.Sprintf("[\\|\\.]*%v\\.%v$", parts[0], parts[1])`. -/
def ptxt (p0 p1 : Text) : Text :=
  ['[', '\\', '|', '\\', '.', ']', '*'] ++ p0 ++ ['\\', '.'] ++ p1 ++ ['$']

/-- The loop over the map: the target of the first key that matches. -/
def search (d : DNSGFW) (order : List (Text × Text)) (pattern : Text → Bool) : Text :=
  match order.find? fun e => pattern e.1 with
  | some e => e.2
  | none => d.get ['*']

/-- `Find`, `none` if `regexp.MustCompile` panics. -/
def find (compile : Compile) (d : DNSGFW) (order : List (Text × Text)) (domain : Text) :
    Option Text :=
  match pieces domain with
  | none => some (d.get ['*'])
  | some (p0, p1) => (compile (ptxt p0 p1)).map (d.search order)

variable {compile : Compile} {d : DNSGFW} {order : List (Text × Text)} {domain : Text}

/-- The pattern that `Find` compiles for the domain. -/
def pattern (compile : Compile) (domain : Text) : Option (Text → Bool) :=
  (pieces domain).bind fun p => compile (ptxt p.1 p.2)

theorem find_of_pieces_none (h : pieces domain = none) :
    d.find compile order domain = some (d.get ['*']) := by
  simp only [find, h]

theorem find_of_pieces {p0 p1 : Text} (h : pieces domain = some (p0, p1)) :
    d.find compile order domain = (compile (ptxt p0 p1)).map (d.search order) := by
  simp only [find, h]

/-- An entry that matches can be met first. -/
theorem exists_order {e : Text × Text} (he : e ∈ d.list) :
    ∃ order, order.Perm d.list ∧ ∃ rest, order = e :: rest :=
  ⟨e :: d.list.erase e, (List.perm_cons_erase he).symm, _, rfl⟩

theorem search_cons {e : Text × Text} {rest : List (Text × Text)} {found : Text → Bool}
    (h : found e.1 = true) : d.search (e :: rest) found = e.2 := by
  have hfirst : (e :: rest).find? (fun e => found e.1) = some e := List.find?_cons_of_pos h
  rw [search, hfirst]

/-- The results of the loop over all orders. -/
theorem search_cases (found : Text → Bool) (horder : order.Perm d.list) :
    (∃ e ∈ d.list, found e.1 = true ∧ d.search order found = e.2) ∨
      ((∀ e ∈ d.list, found e.1 = false) ∧ d.search order found = d.get ['*']) := by
  unfold search
  split
  · rename_i e he
    have hmatch : found e.1 = true := List.find?_some (p := fun e : Text × Text => found e.1) he
    exact Or.inl ⟨e, horder.mem_iff.mp (List.mem_of_find?_eq_some he), hmatch, rfl⟩
  · rename_i hnone
    refine Or.inr ⟨?_, rfl⟩
    intro e he
    simpa using List.find?_eq_none.mp hnone e (horder.mem_iff.mpr he)

/-- The first match decides only which of the matching entries is used. -/
theorem search_eq {order' : List (Text × Text)} {found : Text → Bool}
    (h : ∀ e ∈ d.list, ∀ e' ∈ d.list, found e.1 = true → found e'.1 = true → e.2 = e'.2)
    (horder : order.Perm d.list) (horder' : order'.Perm d.list) :
    d.search order found = d.search order' found := by
  obtain ⟨e, he, hmatch, heq⟩ | ⟨hnone, heq⟩ := search_cases found horder
  · obtain ⟨e', he', hmatch', heq'⟩ | ⟨hnone', _⟩ := search_cases found horder'
    · rw [heq, heq', h e he e' he' hmatch hmatch']
    · rw [hnone' e he] at hmatch
      cases hmatch
  · obtain ⟨e', he', hmatch', _⟩ | ⟨_, heq'⟩ := search_cases found horder'
    · rw [hnone e' he'] at hmatch'
      cases hmatch'
    · rw [heq, heq']

/-- The result does not depend on the order of the iteration, exactly if all entries whose
keys the pattern of the domain matches have one target. -/
theorem find_order_iff (compile : Compile) (d : DNSGFW) (domain : Text) :
    (∀ order order', order.Perm d.list → order'.Perm d.list →
      d.find compile order domain = d.find compile order' domain) ↔
    ∀ found, pattern compile domain = some found → ∀ e ∈ d.list, ∀ e' ∈ d.list,
      found e.1 = true → found e'.1 = true → e.2 = e'.2 := by
  constructor
  · intro h found hfound e he e' he' hmatch hmatch'
    obtain ⟨p, hp, hcompile⟩ := Option.bind_eq_some_iff.mp hfound
    obtain ⟨order, horder, rest, rfl⟩ := exists_order he
    obtain ⟨order', horder', rest', rfl⟩ := exists_order he'
    have heq := h _ _ horder horder'
    rw [find_of_pieces hp, find_of_pieces hp, hcompile, Option.map_some, Option.map_some,
      search_cons hmatch, search_cons hmatch'] at heq
    exact Option.some.inj heq
  · intro h order order' horder horder'
    cases hp : pieces domain with
    | none => rw [find_of_pieces_none hp, find_of_pieces_none hp]
    | some p =>
        rw [find_of_pieces hp, find_of_pieces hp]
        cases hcompile : compile (ptxt p.1 p.2) with
        | none => rfl
        | some found =>
            have hfound : pattern compile domain = some found := by
              rw [pattern, hp, Option.bind_some, hcompile]
            rw [Option.map_some, Option.map_some]
            exact congrArg some (search_eq (h found hfound) horder horder')

/-- `[\|\.]*`, with which every expression begins. -/
def lead : Regexp.Piece := ⟨.set ⟨false, [.range '|' '|', .range '.' '.']⟩, 0, none⟩

/-- The expression of pieces of ordinary characters. -/
theorem parse_ptxt {p0 p1 : Text} (h0 : ∀ c ∈ p0, ¬Regexp.Special c)
    (h1 : ∀ c ∈ p1, ¬Regexp.Special c) :
    Regexp.parse (ptxt p0 p1) = some [lead :: (p0.map (fun c => Regexp.once (Regexp.charAtom c)) ++
      Regexp.once (.set (.single '.')) :: (p1.map (fun c => Regexp.once (Regexp.charAtom c)) ++
        [Regexp.once .stop]))] := by
  have hend : Regexp.Unrepeated ['$'] := Regexp.unrepeated_cons (by simp [Regexp.Special])
  have hstop : Regexp.parse ['$'] = some [[Regexp.once .stop]] := rfl
  have hsecond : Regexp.parse (p1 ++ ['$']) =
      some [p1.map (fun c => Regexp.once (Regexp.charAtom c)) ++ [Regexp.once .stop]] := by
    rw [Regexp.parse_chars h1 hend, hstop, Option.map_some, Regexp.foldr_consPiece]
  have hnext : Regexp.Unrepeated (p1 ++ ['$']) := Regexp.unrepeated_append h1 hend
  have hdot : Regexp.parse (['\\', '.'] ++ (p1 ++ ['$'])) =
      some [Regexp.once (.set (.single '.')) ::
        (p1.map (fun c => Regexp.once (Regexp.charAtom c)) ++ [Regexp.once .stop])] := by
    rw [List.cons_append, List.cons_append, List.nil_append,
      Regexp.parse_punct (by decide) (by decide) hnext, hsecond]
    rfl
  have hfirst : Regexp.Unrepeated (['\\', '.'] ++ (p1 ++ ['$'])) := by
    intro c hc
    obtain rfl : '\\' = c := by simpa using hc
    decide
  have hhead : (p0 ++ (['\\', '.'] ++ (p1 ++ ['$']))).head? ≠ some '?' := by
    cases p0 with
    | nil => simp
    | cons c p0 =>
        rintro ⟨⟩
        exact h0 '?' List.mem_cons_self (by simp [Regexp.Special])
  have hsplit : ptxt p0 p1 = ['[', '\\', '|', '\\', '.', ']', '*'] ++
      (p0 ++ (['\\', '.'] ++ (p1 ++ ['$']))) := by
    simp [ptxt]
  rw [hsplit, Regexp.parse_dots hhead, Regexp.parse_chars h0 hfirst, hdot, Option.map_some,
    Option.map_some, Regexp.foldr_consPiece]
  rfl

/-- Two bases, one of which ends in the text of the other. -/
def twoBases : DNSGFW :=
  built [(['|', '|', 'g', 'o', 'o', 'g', 'l', 'e', '.', 'c', 'o', 'm'], ['p', 'r', 'o', 'x', 'y']),
    (['|', '|', 'n', 'o', 't', 'g', 'o', 'o', 'g', 'l', 'e', '.', 'c', 'o', 'm'],
      ['l', 'o', 'c', 'a', 'l'])]

def wwwGoogle : Text := ['w', 'w', 'w', '.', 'g', 'o', 'o', 'g', 'l', 'e', '.', 'c', 'o', 'm', '.']

def notGoogle : Text := ['n', 'o', 't', 'g', 'o', 'o', 'g', 'l', 'e', '.', 'c', 'o', 'm']

/-- The pattern of `notgoogle.com` matches one key only. -/
theorem find_order_single :
    twoBases.find Regexp.compile twoBases.list notGoogle =
      twoBases.find Regexp.compile twoBases.list.reverse notGoogle := by
  have hone : (pattern Regexp.compile notGoogle).all (fun found =>
      twoBases.list.all fun e => twoBases.list.all fun e' =>
        !found e.1 || !found e'.1 || e.2 == e'.2) = true := by decide +kernel
  refine (find_order_iff Regexp.compile twoBases notGoogle).mpr ?_ twoBases.list
    twoBases.list.reverse (List.Perm.refl _) (List.reverse_perm _)
  intro found hfound e he e' he' hmatch hmatch'
  rw [hfound] at hone
  have hall := List.all_eq_true.mp (List.all_eq_true.mp hone e he) e' he'
  simpa [hmatch, hmatch'] using hall

/-- The target of `www.google.com.` is that of the entry met first. -/
theorem find_order_differs : ∃ order order', order.Perm twoBases.list ∧
    order'.Perm twoBases.list ∧
      twoBases.find Regexp.compile order wwwGoogle ≠
        twoBases.find Regexp.compile order' wwwGoogle := by
  refine ⟨twoBases.list, twoBases.list.reverse, List.Perm.refl _, List.reverse_perm _, ?_⟩
  decide +kernel

end DNSGFW

end Csocks

end LwipCs
