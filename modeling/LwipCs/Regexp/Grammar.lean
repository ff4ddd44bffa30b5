import LwipCs.Regexp.Syntax

/-!
# Which texts are patterns

The grammar of patterns, as relations between a text and what is left of it behind a
phrase, and that `parse` accepts exactly the texts of the grammar.
-/

namespace Regexp

/-- An escape, behind its backslash. -/
inductive Escape : List Char → List Char → Prop
  | punct {c : Char} {t : List Char} (hascii : c.toNat < 128) (hc : c.isAlphanum = false) :
      Escape (c :: t) t
  | zero {t : List Char} : Escape ('0' :: t) (readOctal 2 0 t).2
  | octal {c d : Char} {t : List Char} (hc : isOctal c) (hd : isOctal d) :
      Escape (c :: d :: t) (readOctal 2 (c.toNat - '0'.toNat) (d :: t)).2

/-- The text does not begin with a named class. -/
def Unnamed (t : List Char) : Prop := ∀ v, t = '[' :: ':' :: v → splitName v = none

/-- An item of a class. -/
inductive Item : List Char → List Char → Prop
  | named {t name rest : List Char} {item : ClassItem} (hname : splitName t = some (name, rest))
      (hitem : posixClass name = some item) : Item ('[' :: ':' :: t) rest
  | char {t u : List Char} {c : Char}
      (hplain : Unnamed t) (hc : readClassChar t = some (c, u))
      (hlast : ∀ v, u = '-' :: v → v.head?.all (· = ']')) : Item t u
  | range {t u rest : List Char} {lo hi : Char}
      (hplain : Unnamed t) (hlo : readClassChar t = some (lo, '-' :: u))
      (hinner : u.head? ≠ some ']') (hhi : readClassChar u = some (hi, rest)) (hle : lo ≤ hi) :
      Item t rest

/-- The items of a class and its closing bracket, which is not the first. -/
inductive Items : Bool → List Char → List Char → Prop
  | close {t : List Char} : Items false (']' :: t) t
  | item {first : Bool} {t u rest : List Char} (hopen : first = true ∨ t.head? ≠ some ']')
      (hitem : Item t u) (hitems : Items false u rest) : Items first t rest

/-- A class, behind its opening bracket. -/
inductive Class : List Char → List Char → Prop
  | negated {t rest : List Char} (h : Items true t rest) : Class ('^' :: t) rest
  | plain {t rest : List Char} (ht : t.head? ≠ some '^') (h : Items true t rest) : Class t rest

/-- The characters that are not atoms by themselves. -/
def Special (c : Char) : Prop := c ∈ ['\\', '[', '|', '*', '+', '?', '\x7b']

/-- An atom. A brace is one if it does not begin a count. -/
inductive AtomAt : List Char → List Char → Prop
  | char {c : Char} {t : List Char} (hc : ¬Special c) : AtomAt (c :: t) t
  | brace {t : List Char} (h : readCount t = none) : AtomAt ('\x7b' :: t) t
  | escape {t rest : List Char} (h : Escape t rest) : AtomAt ('\\' :: t) rest
  | bracket {t rest : List Char} (h : Class t rest) : AtomAt ('[' :: t) rest

/-- The text does not begin with a repetition. -/
def Unrepeated (t : List Char) : Prop := ∀ c ∈ t.head?, c ∉ ['*', '+', '?', '\x7b']

/-- The repetition of an atom, or none. -/
inductive RepAt : List Char → List Char → Prop
  | once {t : List Char} (h : Unrepeated t) : RepAt t t
  | brace {t : List Char} (h : readCount t = none) : RepAt ('\x7b' :: t) ('\x7b' :: t)
  | op {c : Char} {t : List Char} (hc : c ∈ ['*', '+', '?']) : RepAt (c :: t) (skipLazy t)
  | count {t rest : List Char} {n : Nat × Option Nat} (h : readCount t = some (n, rest))
      (hn : CountOk n) : RepAt ('\x7b' :: t) (skipLazy rest)

/-- Alternatives of pieces: no repetition stands where an atom should. -/
inductive Branches : List Char → Prop
  | nil : Branches []
  | bar {t : List Char} (h : Branches t) : Branches ('|' :: t)
  | piece {t u v : List Char} (hatom : AtomAt t u) (hrep : RepAt u v) (h : Branches v) :
      Branches t

variable {t u rest : List Char} {c : Char}

/-! ### Escapes -/

theorem readOctal_length (k n : Nat) (t : List Char) : (readOctal k n t).2.length ≤ t.length := by
  induction k generalizing n t with
  | zero => simp [readOctal]
  | succ k ih =>
      cases t with
      | nil => simp [readOctal]
      | cons d t =>
          simp only [readOctal]
          split
          · exact Nat.le_trans (ih _ t) (Nat.le_succ _)
          · exact Nat.le_refl _

theorem isAlphanum_of_isOctal (h : isOctal c) : c.isAlphanum = true := by
  simp only [isOctal, Bool.and_eq_true, decide_eq_true_eq] at h
  have hdigit : c.isDigit = true := by
    simp only [Char.isDigit, Bool.and_eq_true, decide_eq_true_eq]
    exact ⟨h.1, Char.le_trans h.2 (by decide)⟩
  simp [Char.isAlphanum, hdigit]

theorem readEscape_punct (hascii : c.toNat < 128) (hc : c.isAlphanum = false) :
    readEscape (c :: t) = some (c, t) := by
  have hoctal : ¬(c = '0' ∨ isOctal c ∧ t.head?.any isOctal) := by
    rintro (rfl | ⟨hc', _⟩)
    · cases hc
    · rw [isAlphanum_of_isOctal hc'] at hc
      cases hc
  rw [readEscape, if_neg hoctal, if_pos ⟨hascii, hc⟩]

theorem readEscape_iff : (∃ c, readEscape t = some (c, rest)) ↔ Escape t rest := by
  constructor
  · rintro ⟨c, h⟩
    cases t with
    | nil => cases h
    | cons x t =>
        simp only [readEscape] at h
        split at h
        · rename_i hoctal
          cases h
          by_cases hzero : x = '0'
          · subst hzero
            exact .zero
          · obtain ⟨hx, hnext⟩ := hoctal.resolve_left hzero
            cases t with
            | nil => cases hnext
            | cons d t => exact .octal hx hnext
        · split at h
          · rename_i hpunct
            cases h
            exact .punct hpunct.1 hpunct.2
          · cases h
  · intro h
    cases h with
    | punct hascii hc => exact ⟨_, readEscape_punct hascii hc⟩
    | zero => exact ⟨_, rfl⟩
    | @octal x d t hx hd =>
        have hoctal : x = '0' ∨ isOctal x ∧ (d :: t).head?.any isOctal := Or.inr ⟨hx, hd⟩
        exact ⟨_, if_pos hoctal⟩

theorem Escape.length (h : Escape t rest) : rest.length < t.length := by
  cases h with
  | punct => exact Nat.lt_succ_self _
  | zero => exact Nat.lt_succ_of_le (readOctal_length ..)
  | octal => exact Nat.lt_succ_of_le (readOctal_length ..)

/-! ### Classes -/

theorem readClassChar_length (h : readClassChar t = some (c, rest)) : rest.length < t.length := by
  unfold readClassChar at h
  split at h
  · cases h
  · exact Nat.lt_succ_of_lt (readEscape_iff.mp ⟨c, h⟩).length
  · cases h
    exact Nat.lt_succ_self _

theorem splitName_length {name : List Char} (h : splitName t = some (name, rest)) :
    rest.length < t.length := by
  induction t generalizing name with
  | nil => cases h
  | cons x t ih =>
      unfold splitName at h
      split at h
      · cases h
        simp only [List.length_cons]
        omega
      · obtain ⟨y, hy, heq⟩ := Option.map_eq_some_iff.mp h
        cases heq
        exact Nat.lt_succ_of_lt (ih hy)

theorem readItem_of_unnamed (h : Unnamed t) : readItem t = readRange t := by
  unfold readItem
  split
  · rename_i v
    rw [h v rfl]
  · rfl

theorem item_of_readRange {item : ClassItem} (hplain : Unnamed t)
    (h : readRange t = some (item, rest)) : Item t rest := by
  obtain ⟨⟨lo, u⟩, hlo, h⟩ := Option.bind_eq_some_iff.mp h
  simp only at h
  split at h
  · rename_i c v
    split at h
    · rename_i hc
      cases h
      refine .char hplain hlo ?_
      rintro _ ⟨⟩
      simp [hc]
    · rename_i hc
      obtain ⟨⟨hi, w⟩, hhi, h⟩ := Option.bind_eq_some_iff.mp h
      simp only at h
      split at h
      · rename_i hle
        cases h
        exact .range hplain hlo (by simpa using hc) hhi hle
      · cases h
  · rename_i hminus
    cases h
    refine .char hplain hlo ?_
    rintro v rfl
    cases v with
    | nil => rfl
    | cons c v => exact absurd rfl (hminus c v)

theorem readItem_iff : (∃ item, readItem t = some (item, rest)) ↔ Item t rest := by
  constructor
  · rintro ⟨item, h⟩
    by_cases hplain : Unnamed t
    · rw [readItem_of_unnamed hplain] at h
      exact item_of_readRange hplain h
    · simp only [Unnamed, not_forall] at hplain
      obtain ⟨v, rfl, hv⟩ := hplain
      obtain ⟨⟨name, w⟩, hname⟩ := Option.ne_none_iff_exists'.mp hv
      simp only [readItem, hname] at h
      obtain ⟨i, hi, heq⟩ := Option.map_eq_some_iff.mp h
      cases heq
      exact .named hname hi
  · intro h
    cases h with
    | @named _ _ _ item hname hitem =>
        exact ⟨item, by simp only [readItem, hname, hitem, Option.map_some]⟩
    | char hplain hc hlast =>
        rw [readItem_of_unnamed hplain]
        simp only [readRange, hc, Option.bind_some]
        split
        · rename_i c v
          have hclose : c = ']' := by simpa using hlast _ rfl
          exact ⟨_, if_pos hclose⟩
        · exact ⟨_, rfl⟩
    | @range _ u _ lo hi hplain hlo hinner hhi hle =>
        rw [readItem_of_unnamed hplain]
        cases u with
        | nil => cases hhi
        | cons c v =>
            have hc : c ≠ ']' := by simpa using hinner
            simp only [readRange, hlo, Option.bind_some, if_neg hc, hhi, if_pos hle]
            exact ⟨_, rfl⟩

theorem Item.length (h : Item t rest) : rest.length < t.length := by
  cases h with
  | named hname hitem =>
      exact Nat.lt_succ_of_lt (Nat.lt_succ_of_lt (splitName_length hname))
  | char hplain hc hlast => exact readClassChar_length hc
  | range hplain hlo hinner hhi hle =>
      exact Nat.lt_trans (readClassChar_length hhi)
        (Nat.lt_of_succ_lt (readClassChar_length hlo))

theorem readItems_iff {fuel : Nat} {first : Bool} (hfuel : t.length < fuel) :
    (∃ items, readItems fuel first t = some (items, rest)) ↔ Items first t rest := by
  induction fuel generalizing first t with
  | zero => exact absurd hfuel (Nat.not_lt_zero _)
  | succ fuel ih =>
      constructor
      · rintro ⟨items, h⟩
        simp only [readItems] at h
        split at h
        · rename_i hclose
          obtain ⟨rfl, hhead⟩ := hclose
          cases t with
          | nil => cases hhead
          | cons c v =>
              cases hhead
              cases h
              exact .close
        · rename_i hopen
          obtain ⟨⟨item, u⟩, hitem, h⟩ := Option.bind_eq_some_iff.mp h
          obtain ⟨⟨more, v⟩, hmore, heq⟩ := Option.map_eq_some_iff.mp h
          cases heq
          have hitem := readItem_iff.mp ⟨item, hitem⟩
          have hless := hitem.length
          refine .item ?_ hitem ((ih (by omega)).mp ⟨more, hmore⟩)
          cases first with
          | true => exact Or.inl rfl
          | false => exact Or.inr fun hhead => hopen ⟨rfl, hhead⟩
      · intro h
        cases h with
        | close => exact ⟨[], rfl⟩
        | @item _ _ u _ hopen hitem hitems =>
            have hless := hitem.length
            obtain ⟨item, hread⟩ := readItem_iff.mpr hitem
            obtain ⟨more, hmore⟩ := (ih (by omega)).mpr hitems
            have hnot : ¬(first = false ∧ t.head? = some ']') := by
              rintro ⟨rfl, hhead⟩
              exact hopen.elim nofun fun hne => hne hhead
            refine ⟨item :: more, ?_⟩
            rw [readItems, if_neg hnot, hread, Option.bind_some, hmore, Option.map_some]

theorem Items.length {first : Bool} (h : Items first t rest) : rest.length < t.length := by
  induction h with
  | close => exact Nat.lt_succ_self _
  | item _ hitem _ ih => exact Nat.lt_trans ih hitem.length

theorem readClass_iff : (∃ set, readClass t = some (set, rest)) ↔ Class t rest := by
  constructor
  · rintro ⟨set, h⟩
    unfold readClass at h
    split at h
    · rename_i v
      obtain ⟨⟨items, w⟩, hitems, heq⟩ := Option.map_eq_some_iff.mp h
      cases heq
      exact .negated ((readItems_iff (Nat.lt_succ_self _)).mp ⟨items, hitems⟩)
    · rename_i hplain
      obtain ⟨⟨items, w⟩, hitems, heq⟩ := Option.map_eq_some_iff.mp h
      cases heq
      refine .plain ?_ ((readItems_iff (Nat.lt_succ_self _)).mp ⟨items, hitems⟩)
      cases t with
      | nil => nofun
      | cons c v =>
          rintro ⟨⟩
          exact hplain v rfl
  · intro h
    cases h with
    | negated h =>
        obtain ⟨items, hitems⟩ := (readItems_iff (Nat.lt_succ_self _)).mpr h
        exact ⟨⟨true, items⟩, by simp only [readClass, hitems, Option.map_some]⟩
    | plain ht h =>
        obtain ⟨items, hitems⟩ := (readItems_iff (Nat.lt_succ_self _)).mpr h
        refine ⟨⟨false, items⟩, ?_⟩
        unfold readClass
        split
        · exact absurd rfl ht
        · rw [hitems, Option.map_some]

theorem Class.length (h : Class t rest) : rest.length < t.length := by
  cases h with
  | negated h => exact Nat.lt_succ_of_lt h.length
  | plain _ h => exact h.length

/-! ### Repetitions -/

theorem readNumber_length {n : Nat} (h : readNumber t = some (n, rest)) :
    rest.length ≤ t.length := by
  simp only [readNumber] at h
  split at h
  · cases h
  · cases h
    exact (List.dropWhile_suffix _).length_le

theorem readCount_length {n : Nat × Option Nat} (h : readCount t = some (n, rest)) :
    rest.length ≤ t.length := by
  obtain ⟨⟨lo, u⟩, hlo, h⟩ := Option.bind_eq_some_iff.mp h
  have hlo := readNumber_length hlo
  simp only at h
  split at h
  · cases h
    exact Nat.le_trans (Nat.le_succ _) hlo
  · cases h
    simp only [List.length_cons] at hlo
    omega
  · obtain ⟨⟨hi, v⟩, hhi, h⟩ := Option.bind_eq_some_iff.mp h
    have hhi := readNumber_length hhi
    simp only at h
    split at h
    · cases h
      simp only [List.length_cons] at hlo hhi
      omega
    · cases h
  · cases h

theorem skipLazy_length (t : List Char) : (skipLazy t).length ≤ t.length := by
  unfold skipLazy
  split
  · exact Nat.le_succ _
  · exact Nat.le_refl _

theorem readRepetition_once (h : Unrepeated t) : readRepetition t = some ((1, some 1), t) := by
  unfold readRepetition
  split
  · exact absurd (h _ rfl) (by simp)
  · exact absurd (h _ rfl) (by simp)
  · exact absurd (h _ rfl) (by simp)
  · exact absurd (h _ rfl) (by simp)
  · rfl

theorem readRepetition_iff : (∃ n, readRepetition t = some (n, rest)) ↔ RepAt t rest := by
  constructor
  · rintro ⟨n, h⟩
    unfold readRepetition at h
    split at h
    · cases h
      exact .op (by simp)
    · cases h
      exact .op (by simp)
    · cases h
      exact .op (by simp)
    · split at h
      · rename_i x hcount
        split at h
        · rename_i hok
          cases h
          exact .count hcount hok
        · cases h
      · rename_i hnone
        cases h
        exact .brace hnone
    · rename_i hstar hplus hquest hbrace
      cases h
      apply RepAt.once
      intro c hc
      cases t with
      | nil => cases hc
      | cons d v =>
          obtain rfl : d = c := by simpa using hc
          simp only [List.mem_cons, List.not_mem_nil, or_false, not_or]
          exact ⟨fun h => hstar v (h ▸ rfl), fun h => hplus v (h ▸ rfl),
            fun h => hquest v (h ▸ rfl), fun h => hbrace v (h ▸ rfl)⟩
  · intro h
    cases h with
    | once h => exact ⟨(1, some 1), readRepetition_once h⟩
    | brace h => exact ⟨(1, some 1), by simp only [readRepetition, h]⟩
    | op hc =>
        simp only [List.mem_cons, List.not_mem_nil, or_false] at hc
        rcases hc with rfl | rfl | rfl
        · exact ⟨_, rfl⟩
        · exact ⟨_, rfl⟩
        · exact ⟨_, rfl⟩
    | @count _ _ n h hn => exact ⟨n, by simp only [readRepetition, h, if_pos hn]⟩

theorem RepAt.length (h : RepAt t rest) : rest.length ≤ t.length := by
  cases h with
  | once => exact Nat.le_refl _
  | brace => exact Nat.le_refl _
  | op => exact Nat.le_trans (skipLazy_length _) (Nat.le_succ _)
  | count h => exact Nat.le_trans (skipLazy_length _) (Nat.le_succ_of_le (readCount_length h))

/-! ### Patterns -/

theorem readAtom_char (hc : ¬Special c) :
    readAtom (c :: t) = some (charAtom c, t) := by
  simp only [Special, List.mem_cons, List.not_mem_nil, or_false, not_or] at hc
  obtain ⟨hescape, hclass, _, hstar, hplus, hquest, hbrace⟩ := hc
  unfold readAtom
  split
  · rename_i hnil
    cases hnil
  · rename_i hcons
    cases hcons
    exact absurd rfl hescape
  · rename_i hcons
    cases hcons
    exact absurd rfl hclass
  · rename_i hcons
    cases hcons
    exact absurd rfl hbrace
  · rename_i hcons
    cases hcons
    rw [if_neg (by simp [hstar, hplus, hquest])]

theorem readAtom_iff (ht : t.head? ≠ some '|') :
    (∃ atom, readAtom t = some (atom, rest)) ↔ AtomAt t rest := by
  constructor
  · rintro ⟨atom, h⟩
    unfold readAtom at h
    split at h
    · cases h
    · obtain ⟨⟨c, u⟩, hc, heq⟩ := Option.map_eq_some_iff.mp h
      cases heq
      exact .escape (readEscape_iff.mp ⟨c, hc⟩)
    · obtain ⟨⟨set, u⟩, hset, heq⟩ := Option.map_eq_some_iff.mp h
      cases heq
      exact .bracket (readClass_iff.mp ⟨set, hset⟩)
    · split at h
      · cases h
      · rename_i hnone
        cases h
        exact .brace hnone
    · rename_i c v hescape hclass hbrace
      split at h
      · cases h
      · rename_i hop
        cases h
        obtain ⟨hstar, hplus, hquest⟩ := not_or.mp hop |>.imp_right not_or.mp
        apply AtomAt.char
        have hbar : c ≠ '|' := by simpa using ht
        simp only [Special, List.mem_cons, List.not_mem_nil, or_false, not_or]
        exact ⟨hescape, hclass, hbar, hstar, hplus, hquest, hbrace⟩
  · intro h
    cases h with
    | char hc => exact ⟨_, readAtom_char hc⟩
    | brace h => exact ⟨_, by simp only [readAtom, h]; rfl⟩
    | escape h =>
        obtain ⟨c, hc⟩ := readEscape_iff.mpr h
        exact ⟨.set (.single c), by simp only [readAtom, hc, Option.map_some]⟩
    | bracket h =>
        obtain ⟨set, hset⟩ := readClass_iff.mpr h
        exact ⟨.set set, by simp only [readAtom, hset, Option.map_some]⟩

theorem AtomAt.length (h : AtomAt t rest) : rest.length < t.length := by
  cases h with
  | char => exact Nat.lt_succ_self _
  | brace => exact Nat.lt_succ_self _
  | escape h => exact Nat.lt_succ_of_lt h.length
  | bracket h => exact Nat.lt_succ_of_lt h.length

theorem AtomAt.ne_bar (h : AtomAt t rest) : t.head? ≠ some '|' := by
  cases h with
  | char hc =>
      intro hbar
      cases hbar
      exact hc (by simp [Special])
  | _ => nofun

theorem parseFrom_piece {fuel : Nat} (hne : t ≠ []) (hbar : t.head? ≠ some '|') :
    parseFrom (fuel + 1) t = (readAtom t).bind fun x => (readRepetition x.2).bind fun y =>
      (parseFrom fuel y.2).map (consPiece ⟨x.1, y.1.1, y.1.2⟩) := by
  rw [parseFrom]
  · exact hne
  · rintro v rfl
    exact hbar rfl

theorem parseFrom_iff {fuel : Nat} (hfuel : t.length ≤ fuel) :
    (∃ p, parseFrom fuel t = some p) ↔ Branches t := by
  induction fuel generalizing t with
  | zero =>
      obtain rfl := List.eq_nil_of_length_eq_zero (Nat.le_zero.mp hfuel)
      exact iff_of_true ⟨_, rfl⟩ .nil
  | succ fuel ih =>
      constructor
      · rintro ⟨p, h⟩
        by_cases hne : t = []
        · subst hne
          exact .nil
        by_cases hbar : t.head? = some '|'
        · obtain ⟨v, rfl⟩ := List.head?_eq_some_iff.mp hbar
          obtain ⟨q, hq, _⟩ := Option.map_eq_some_iff.mp h
          exact .bar ((ih (Nat.le_of_succ_le_succ hfuel)).mp ⟨q, hq⟩)
        · rw [parseFrom_piece hne hbar] at h
          obtain ⟨⟨atom, u⟩, hatom, h⟩ := Option.bind_eq_some_iff.mp h
          obtain ⟨⟨n, v⟩, hrep, h⟩ := Option.bind_eq_some_iff.mp h
          obtain ⟨q, hq, _⟩ := Option.map_eq_some_iff.mp h
          have hatom : AtomAt t u := (readAtom_iff hbar).mp ⟨atom, hatom⟩
          have hrep : RepAt u v := readRepetition_iff.mp ⟨n, hrep⟩
          have hless := hatom.length
          have hle := hrep.length
          exact .piece hatom hrep ((ih (by omega)).mp ⟨q, hq⟩)
      · intro h
        cases h with
        | nil => exact ⟨_, rfl⟩
        | bar h =>
            obtain ⟨q, hq⟩ := (ih (Nat.le_of_succ_le_succ hfuel)).mpr h
            exact ⟨[] :: q, by simp only [parseFrom, hq, Option.map_some]⟩
        | @piece _ u v hatom hrep h =>
            have hless := hatom.length
            have hle := hrep.length
            have hne : t ≠ [] := by
              rintro rfl
              exact absurd hless (Nat.not_lt_zero _)
            obtain ⟨atom, hread⟩ := (readAtom_iff hatom.ne_bar).mpr hatom
            obtain ⟨n, hcount⟩ := readRepetition_iff.mpr hrep
            obtain ⟨q, hq⟩ := (ih (by omega)).mpr h
            refine ⟨consPiece ⟨atom, n.1, n.2⟩ q, ?_⟩
            rw [parseFrom_piece hne hatom.ne_bar, hread, Option.bind_some, hcount,
              Option.bind_some, hq, Option.map_some]

/-- `parse` accepts the texts of the grammar. -/
theorem parse_iff : (∃ p, parse t = some p) ↔ Branches t := parseFrom_iff (Nat.le_refl _)

/-- Enough fuel is enough. -/
theorem parseFrom_eq {fuel : Nat} (hfuel : t.length ≤ fuel) : parseFrom fuel t = parse t := by
  have agree : ∀ n m (t : List Char), t.length ≤ n → t.length ≤ m →
      parseFrom n t = parseFrom m t := by
    intro n
    induction n with
    | zero =>
        intro m t hn _
        obtain rfl := List.eq_nil_of_length_eq_zero (Nat.le_zero.mp hn)
        cases m <;> rfl
    | succ n ih =>
        intro m t hn hm
        cases m with
        | zero =>
            obtain rfl := List.eq_nil_of_length_eq_zero (Nat.le_zero.mp hm)
            rfl
        | succ m =>
            by_cases hne : t = []
            · subst hne
              rfl
            by_cases hbar : t.head? = some '|'
            · obtain ⟨v, rfl⟩ := List.head?_eq_some_iff.mp hbar
              simp only [parseFrom]
              rw [ih m v (Nat.le_of_succ_le_succ hn) (Nat.le_of_succ_le_succ hm)]
            · rw [parseFrom_piece hne hbar, parseFrom_piece hne hbar]
              refine Option.bind_congr fun x hx => Option.bind_congr fun y hy => ?_
              have hatom : AtomAt t x.2 := (readAtom_iff hbar).mp ⟨x.1, hx⟩
              have hrep : RepAt x.2 y.2 := readRepetition_iff.mp ⟨y.1, hy⟩
              have hless := hatom.length
              have hle := hrep.length
              rw [ih m y.2 (by omega) (by omega)]
  exact agree _ _ t hfuel (Nat.le_refl _)

theorem parse_piece (hne : t ≠ []) (hbar : t.head? ≠ some '|') :
    parse t = (readAtom t).bind fun x => (readRepetition x.2).bind fun y =>
      (parse y.2).map (consPiece ⟨x.1, y.1.1, y.1.2⟩) := by
  rw [← parseFrom_eq (Nat.le_succ t.length), parseFrom_piece hne hbar]
  refine Option.bind_congr fun x hx => Option.bind_congr fun y hy => ?_
  have hatom : AtomAt t x.2 := (readAtom_iff hbar).mp ⟨x.1, hx⟩
  have hrep : RepAt x.2 y.2 := readRepetition_iff.mp ⟨y.1, hy⟩
  have hless := hatom.length
  have hle := hrep.length
  rw [parseFrom_eq (by omega)]

end Regexp
