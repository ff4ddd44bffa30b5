import Mathlib.Data.List.Basic

/-!
# Properties of event traces

A trace is a list of events, oldest first. A property of histories says of each
event what must have happened before it: `Each Q tr` holds when every event of
`tr` meets `Q` against the events that precede it. Such a property is kept by an
extension exactly when the new event meets it, so proofs add one event at a time.

`select` reads from a trace the data of the events of interest, in order.
-/

namespace Interleave

variable {ε β : Type*}

/-- What holds of a trace with and without an event holds where the event is optional. -/
theorem snoc_if {P : List ε → Prop} {tr : List ε} {e : ε} (b : Bool) (h : P tr)
    (hsnoc : P (tr ++ [e])) : P (tr ++ if b then [e] else []) := by
  cases b with
  | false => simpa using h
  | true => exact hsnoc

/-- Every event of the trace meets `Q` against the part of the trace before it. -/
def Each (Q : List ε → ε → Prop) (tr : List ε) : Prop :=
  ∀ before e after, tr = before ++ e :: after → Q before e

@[simp] theorem each_nil (Q : List ε → ε → Prop) : Each Q [] := by
  intro before e after h
  simp at h

@[simp] theorem each_snoc {Q : List ε → ε → Prop} {tr : List ε} {e : ε} :
    Each Q (tr ++ [e]) ↔ Each Q tr ∧ Q tr e := by
  constructor
  · intro h
    refine ⟨fun before x after htr => h before x (after ++ [e]) ?_, h tr e [] rfl⟩
    simp [htr]
  · rintro ⟨h, hlast⟩ before x after htr
    rcases List.eq_nil_or_concat after with rfl | ⟨init, last, rfl⟩
    · obtain ⟨rfl, hx⟩ := List.append_inj' htr rfl
      cases hx
      exact hlast
    · refine h before x init ?_
      have heq : tr ++ [e] = (before ++ x :: init) ++ [last] := by simpa using htr
      exact (List.append_inj' heq rfl).1

/-- An event of which `Q` asks nothing. -/
theorem each_snoc_of {Q : List ε → ε → Prop} {tr : List ε} {e : ε} (h : Q tr e) :
    Each Q (tr ++ [e]) ↔ Each Q tr :=
  each_snoc.trans (and_iff_left h)

theorem Each.mono {Q Q' : List ε → ε → Prop} {tr : List ε} (h : Each Q tr)
    (imp : ∀ before e, Q before e → Q' before e) : Each Q' tr :=
  fun before e after htr => imp before e (h before e after htr)

/-- The data a trace records through `f`, oldest first. -/
abbrev select (f : ε → Option β) (tr : List ε) : List β := tr.filterMap f

@[simp] theorem select_snoc (f : ε → Option β) (tr : List ε) (e : ε) :
    select f (tr ++ [e]) = select f tr ++ (f e).toList := by
  simp only [select, List.filterMap_append]
  cases h : f e <;> simp [h]

/-- An event of no interest. -/
theorem select_snoc_of_none {f : ε → Option β} {e : ε} (h : f e = none) (tr : List ε) :
    select f (tr ++ [e]) = select f tr := by
  rw [select_snoc, h, Option.toList_none, List.append_nil]

end Interleave
