import Mathlib.Data.List.Basic

/-!
# Regular expressions without groups

The syntax of Go's `regexp` on texts in which no parenthesis is unescaped and no letter
follows a backslash: alternatives of sequences of repeated atoms. An atom is a character,
a class in brackets, `.`, `^` or `$`. The readers take what they read off the front of the
text; a text that begins with nothing of the kind, or that `regexp.Compile` rejects there,
has no result.
-/

namespace Regexp

/-- One item of a class: a range, or a named class with its sign. -/
inductive ClassItem
  | range (lo hi : Char)
  | named (negated : Bool) (ranges : List (Char × Char))
  deriving DecidableEq, Repr

def ClassItem.contains (c : Char) : ClassItem → Bool
  | range lo hi => lo ≤ c && c ≤ hi
  | named negated ranges => negated != ranges.any fun r => r.1 ≤ c && c ≤ r.2

/-- The characters of the items, or all others. -/
structure CharSet where
  negated : Bool
  items : List ClassItem
  deriving DecidableEq, Repr

def CharSet.contains (s : CharSet) (c : Char) : Bool :=
  s.negated != s.items.any (ClassItem.contains c)

def CharSet.single (c : Char) : CharSet := ⟨false, [.range c c]⟩

/-- What `.` stands for. -/
def CharSet.dot : CharSet := ⟨true, [.range '\n' '\n']⟩

inductive Atom
  | set (s : CharSet)
  | start
  | stop
  deriving DecidableEq, Repr

/-- An atom with how often it is repeated, `none` for any number of times. -/
structure Piece where
  atom : Atom
  min : Nat
  max : Option Nat
  deriving DecidableEq, Repr

/-- The alternatives, each a sequence of pieces. -/
abbrev Pattern := List (List Piece)

/-! ### Escapes -/

def isOctal (c : Char) : Bool := '0' ≤ c && c ≤ '7'

/-- Up to `k` more octal digits. -/
def readOctal : Nat → Nat → List Char → Nat × List Char
  | k + 1, n, d :: t =>
      if isOctal d then readOctal k (n * 8 + (d.toNat - '0'.toNat)) t else (n, d :: t)
  | _, n, t => (n, t)

/-- What follows a backslash: a punctuation character, or an octal code, which begins with `0`
or has at least two digits. -/
def readEscape : List Char → Option (Char × List Char)
  | [] => none
  | c :: t =>
      if c = '0' ∨ isOctal c ∧ t.head?.any isOctal then
        let code := readOctal 2 (c.toNat - '0'.toNat) t
        some (Char.ofNat code.1, code.2)
      else if c.toNat < 128 ∧ c.isAlphanum = false then some (c, t)
      else none

/-! ### Classes -/

def posixRanges : List (List Char × List (Char × Char)) :=
  [(['a', 'l', 'n', 'u', 'm'], [('0', '9'), ('A', 'Z'), ('a', 'z')]),
    (['a', 'l', 'p', 'h', 'a'], [('A', 'Z'), ('a', 'z')]),
    (['a', 's', 'c', 'i', 'i'], [('\x00', '\x7f')]),
    (['b', 'l', 'a', 'n', 'k'], [('\t', '\t'), (' ', ' ')]),
    (['c', 'n', 't', 'r', 'l'], [('\x00', '\x1f'), ('\x7f', '\x7f')]),
    (['d', 'i', 'g', 'i', 't'], [('0', '9')]),
    (['g', 'r', 'a', 'p', 'h'], [('!', '~')]),
    (['l', 'o', 'w', 'e', 'r'], [('a', 'z')]),
    (['p', 'r', 'i', 'n', 't'], [(' ', '~')]),
    (['p', 'u', 'n', 'c', 't'], [('!', '/'), (':', '@'), ('[', '\x60'), ('\x7b', '~')]),
    (['s', 'p', 'a', 'c', 'e'], [('\t', '\r'), (' ', ' ')]),
    (['u', 'p', 'p', 'e', 'r'], [('A', 'Z')]),
    (['w', 'o', 'r', 'd'], [('0', '9'), ('A', 'Z'), ('a', 'z'), ('_', '_')]),
    (['x', 'd', 'i', 'g', 'i', 't'], [('0', '9'), ('A', 'F'), ('a', 'f')])]

/-- A name as it stands between `[:` and `:]`. -/
def posixClass : List Char → Option ClassItem
  | '^' :: name => (posixRanges.lookup name).map (.named true)
  | name => (posixRanges.lookup name).map (.named false)

/-- The text up to the first `:]`, and the text behind it. -/
def splitName : List Char → Option (List Char × List Char)
  | [] => none
  | c :: t =>
      match c, t with
      | ':', ']' :: rest => some ([], rest)
      | _, _ => (splitName t).map fun x => (c :: x.1, x.2)

def readClassChar : List Char → Option (Char × List Char)
  | [] => none
  | '\\' :: t => readEscape t
  | c :: t => some (c, t)

/-- A character, or a range from it if a minus sign follows that is not the last of the class. -/
def readRange (t : List Char) : Option (ClassItem × List Char) :=
  (readClassChar t).bind fun x =>
    match x.2 with
    | '-' :: c :: rest =>
        if c = ']' then some (.range x.1 x.1, x.2)
        else (readClassChar (c :: rest)).bind fun y =>
          if x.1 ≤ y.1 then some (.range x.1 y.1, y.2) else none
    | _ => some (.range x.1 x.1, x.2)

def readItem : List Char → Option (ClassItem × List Char)
  | '[' :: ':' :: t =>
      match splitName t with
      | some x => (posixClass x.1).map fun item => (item, x.2)
      | none => readRange ('[' :: ':' :: t)
  | t => readRange t

/-- The items up to the closing bracket. A bracket that comes first is an item. -/
def readItems : Nat → Bool → List Char → Option (List ClassItem × List Char)
  | 0, _, _ => none
  | fuel + 1, first, t =>
      if first = false ∧ t.head? = some ']' then some ([], t.tail)
      else (readItem t).bind fun x => (readItems fuel false x.2).map fun y => (x.1 :: y.1, y.2)

/-- What follows an opening bracket. -/
def readClass (t : List Char) : Option (CharSet × List Char) :=
  match t with
  | '^' :: t => (readItems (t.length + 1) true t).map fun x => (⟨true, x.1⟩, x.2)
  | t => (readItems (t.length + 1) true t).map fun x => (⟨false, x.1⟩, x.2)

/-! ### Repetitions -/

/-- A number without a leading zero. -/
def readNumber (t : List Char) : Option (Nat × List Char) :=
  let digits := t.takeWhile Char.isDigit
  if digits = [] ∨ digits.head? = some '0' ∧ digits ≠ ['0'] then none
  else some (digits.foldl (fun n d => n * 10 + (d.toNat - '0'.toNat)) 0, t.dropWhile Char.isDigit)

/-- What follows an opening brace: `n\x7d`, `n,\x7d` or `n,m\x7d`. -/
def readCount (t : List Char) : Option ((Nat × Option Nat) × List Char) :=
  (readNumber t).bind fun x =>
    match x.2 with
    | '\x7d' :: rest => some ((x.1, some x.1), rest)
    | ',' :: '\x7d' :: rest => some ((x.1, none), rest)
    | ',' :: t =>
        (readNumber t).bind fun y =>
          match y.2 with
          | '\x7d' :: rest => some ((x.1, some y.1), rest)
          | _ => none
    | _ => none

/-- At most 1000, and not more at least than at most. -/
def CountOk (count : Nat × Option Nat) : Prop :=
  count.1 ≤ 1000 ∧ ∀ n ∈ count.2, n ≤ 1000 ∧ count.1 ≤ n

instance (count : Nat × Option Nat) : Decidable (CountOk count) :=
  inferInstanceAs (Decidable (_ ∧ _))

/-- A question mark behind a repetition makes it lazy. -/
def skipLazy : List Char → List Char
  | '?' :: t => t
  | t => t

/-- The repetition of the atom before, once if there is none. A brace that begins no count
is a character. -/
def readRepetition : List Char → Option ((Nat × Option Nat) × List Char)
  | '*' :: t => some ((0, none), skipLazy t)
  | '+' :: t => some ((1, none), skipLazy t)
  | '?' :: t => some ((0, some 1), skipLazy t)
  | '\x7b' :: t =>
      match readCount t with
      | some x => if CountOk x.1 then some (x.1, skipLazy x.2) else none
      | none => some ((1, some 1), '\x7b' :: t)
  | t => some ((1, some 1), t)

/-! ### Patterns -/

/-- An unescaped character outside of a class. -/
def charAtom (c : Char) : Atom :=
  if c = '.' then .set .dot
  else if c = '^' then .start
  else if c = '$' then .stop
  else .set (.single c)

/-- One atom. Where one should begin there is nothing for a repetition to repeat. -/
def readAtom : List Char → Option (Atom × List Char)
  | [] => none
  | '\\' :: t => (readEscape t).map fun x => (.set (.single x.1), x.2)
  | '[' :: t => (readClass t).map fun x => (.set x.1, x.2)
  | '\x7b' :: t =>
      match readCount t with
      | some _ => none
      | none => some (.set (.single '\x7b'), t)
  | c :: t => if c = '*' ∨ c = '+' ∨ c = '?' then none else some (charAtom c, t)

/-- Put a piece in front of the first alternative. -/
def consPiece (p : Piece) : Pattern → Pattern
  | [] => [[p]]
  | branch :: rest => (p :: branch) :: rest

def parseFrom : Nat → List Char → Option Pattern
  | _, [] => some [[]]
  | 0, _ => none
  | fuel + 1, '|' :: t => (parseFrom fuel t).map ([] :: ·)
  | fuel + 1, t =>
      (readAtom t).bind fun x =>
        (readRepetition x.2).bind fun y =>
          (parseFrom fuel y.2).map (consPiece ⟨x.1, y.1.1, y.1.2⟩)

/-- `syntax.Parse`. -/
def parse (t : List Char) : Option Pattern := parseFrom t.length t

end Regexp
