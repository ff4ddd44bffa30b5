import Mathlib.Data.List.Nodup
import Mathlib.Logic.Function.Basic

/-!
# Chains of reference-counted cells

A store maps addresses to cells; a cell has a value, a reference count and the
address of its successor. `Linked m r head chain` says that from `head` the store
links exactly the addresses and values of `chain`, the first cell with `r`
references and every later one with a single reference.
-/

namespace Memory

/-- A cell of the store. -/
structure Cell (β : Type*) where
  val : β
  ref : Nat
  next : Option Nat
  deriving DecidableEq

/-- The cells by their addresses. -/
abbrev Store (β : Type*) := Nat → Option (Cell β)

variable {β : Type*}

/-- From `head` the store links the cells of the list; the first has `r` references. -/
def Linked (m : Store β) : Nat → Option Nat → List (Nat × β) → Prop
  | _, head, [] => head = none
  | r, head, (a, v) :: rest =>
      head = some a ∧ ∃ next, m a = some ⟨v, r, next⟩ ∧ Linked m 1 next rest

variable {m : Store β} {r : Nat} {head : Option Nat} {chain rest : List (Nat × β)} {a : Nat}
variable {v : β}

@[simp] theorem linked_nil : Linked m r head [] ↔ head = none := Iff.rfl

theorem Linked.of_none (h : Linked m r none chain) : chain = [] := by
  cases chain with
  | nil => rfl
  | cons x rest => exact nomatch h.1

theorem Linked.of_some (h : Linked m r (some a) chain) :
    ∃ v next rest, chain = (a, v) :: rest ∧ m a = some ⟨v, r, next⟩ ∧ Linked m 1 next rest := by
  cases chain with
  | nil => exact nomatch h
  | cons x rest =>
      obtain ⟨b, v⟩ := x
      obtain ⟨hb, next, hcell, hrest⟩ := h
      cases hb
      exact ⟨v, next, rest, rfl, hcell, hrest⟩

/-- A store links one chain from an address. -/
theorem Linked.unique {chain' : List (Nat × β)} {r' : Nat} (h : Linked m r head chain)
    (h' : Linked m r' head chain') : chain = chain' := by
  induction chain generalizing r r' head chain' with
  | nil =>
      rw [linked_nil] at h
      subst h
      exact h'.of_none.symm
  | cons x rest ih =>
      obtain ⟨a, v⟩ := x
      obtain ⟨rfl, next, hcell, hrest⟩ := h
      obtain ⟨v', next', rest', rfl, hcell', hrest'⟩ := h'.of_some
      cases hcell.symm.trans hcell'
      rw [ih hrest hrest']

/-- The links from a member of the chain are the chain from there. -/
theorem Linked.of_mem (h : Linked m r head chain) (ha : a ∈ chain.map Prod.fst) :
    ∃ front v rest r', chain = front ++ (a, v) :: rest ∧
      Linked m r' (some a) ((a, v) :: rest) := by
  induction chain generalizing r head with
  | nil => cases ha
  | cons x rest ih =>
      obtain ⟨b, v⟩ := x
      have hfull := h
      obtain ⟨rfl, next, hcell, hrest⟩ := h
      rcases List.mem_cons.mp ha with rfl | ha
      · exact ⟨[], v, rest, r, rfl, hfull⟩
      · obtain ⟨front, w, tail, r', rfl, htail⟩ := ih hrest ha
        exact ⟨(b, v) :: front, w, tail, r', rfl, htail⟩

/-- A chain that ends has no address twice. -/
theorem Linked.notMem (h : Linked m r head ((a, v) :: rest)) : a ∉ rest.map Prod.fst := by
  intro ha
  have hfull := h
  obtain ⟨rfl, next, hcell, hrest⟩ := h
  obtain ⟨front, w, tail, r', rfl, htail⟩ := hrest.of_mem ha
  have hsame := congrArg List.length (hfull.unique htail)
  simp only [List.length_cons, List.length_append] at hsame
  omega

theorem Linked.nodup (h : Linked m r head chain) : (chain.map Prod.fst).Nodup := by
  induction chain generalizing r head with
  | nil => exact List.nodup_nil
  | cons x rest ih =>
      obtain ⟨a, v⟩ := x
      have hnot := h.notMem
      obtain ⟨_, next, _, hrest⟩ := h
      exact List.nodup_cons.mpr ⟨hnot, ih hrest⟩

/-- What happens to other addresses leaves the chain as it is. -/
theorem Linked.update (h : Linked m r head chain) (ha : a ∉ chain.map Prod.fst)
    (c : Option (Cell β)) : Linked (Function.update m a c) r head chain := by
  induction chain generalizing r head with
  | nil => exact h
  | cons x rest ih =>
      obtain ⟨b, v⟩ := x
      obtain ⟨hb, next, hcell, hrest⟩ := h
      obtain ⟨hne, hrestNot⟩ := not_or.mp (mt List.mem_cons.mpr ha)
      refine ⟨hb, next, ?_, ih hrest hrestNot⟩
      rw [Function.update_of_ne (Ne.symm hne), hcell]

/-- Setting the count of the first cell. -/
theorem Linked.recount (h : Linked m r (some a) chain) {c : Cell β} (hc : m a = some c) (r' : Nat) :
    Linked (Function.update m a (some { c with ref := r' })) r' (some a) chain := by
  obtain ⟨v, next, rest, rfl, hcell, hrest⟩ := h.of_some
  cases hcell.symm.trans hc
  exact ⟨rfl, next, Function.update_self .., hrest.update (Linked.notMem h) _⟩

/-- A cell in the middle of a chain links the rest of it. -/
theorem Linked.within {front back : List (Nat × β)}
    (h : Linked m r head (front ++ (a, v) :: back)) :
    ∃ r' next, m a = some ⟨v, r', next⟩ ∧ Linked m 1 next back := by
  induction front generalizing r head with
  | nil =>
      obtain ⟨_, next, hcell, hback⟩ := h
      exact ⟨r, next, hcell, hback⟩
  | cons x front ih =>
      obtain ⟨_, next, _, hrest⟩ := h
      exact ih hrest

/-- Storing the head of a second chain in the last cell of the first joins them. -/
theorem Linked.join {front : List (Nat × β)} {t : Nat} {c : Cell β}
    (h : Linked m r head (front ++ [(a, v)])) (hc : m a = some c)
    (hrest : Linked m 1 (some t) rest)
    (hnodup : ((front ++ (a, v) :: rest).map Prod.fst).Nodup) :
    Linked (Function.update m a (some { c with next := some t })) r head
      (front ++ (a, v) :: rest) := by
  induction front generalizing r head with
  | nil =>
      obtain ⟨rfl, next, hcell, _⟩ := h
      cases hcell.symm.trans hc
      have hnot : a ∉ rest.map Prod.fst := (List.nodup_cons.mp hnodup).1
      exact ⟨rfl, some t, Function.update_self .., hrest.update hnot _⟩
  | cons x front ih =>
      obtain ⟨b, w⟩ := x
      obtain ⟨rfl, next, hcell, hback⟩ := h
      obtain ⟨hnot, hback'⟩ := List.nodup_cons.mp hnodup
      have hne : b ≠ a := by
        rintro rfl
        exact hnot (by simp)
      refine ⟨rfl, next, ?_, ih hback hback'⟩
      rw [Function.update_of_ne hne, hcell]

/-- Put a fresh chain into the store. -/
def put (m : Store β) : List (Nat × β) → Store β
  | [] => m
  | (a, v) :: rest => Function.update (put m rest) a (some ⟨v, 1, (rest.map Prod.fst).head?⟩)

theorem linked_put (h : (chain.map Prod.fst).Nodup) :
    Linked (put m chain) 1 (chain.map Prod.fst).head? chain := by
  induction chain with
  | nil => rfl
  | cons x rest ih =>
      obtain ⟨hnot, hrest⟩ := List.nodup_cons.mp h
      exact ⟨rfl, _, Function.update_self .., (ih hrest).update hnot _⟩

/-- Only the addresses of the chain get new cells. -/
theorem put_of_notMem (h : a ∉ chain.map Prod.fst) : put m chain a = m a := by
  induction chain with
  | nil => rfl
  | cons x rest ih =>
      obtain ⟨hne, hrest⟩ := not_or.mp (mt List.mem_cons.mpr h)
      exact (Function.update_of_ne hne _ _).trans (ih hrest)

/-- A fresh chain leaves the others as they are. -/
theorem Linked.put {fresh : List (Nat × β)} (h : Linked m r head chain)
    (hdisjoint : ∀ b ∈ chain.map Prod.fst, b ∉ fresh.map Prod.fst) :
    Linked (put m fresh) r head chain := by
  induction chain generalizing r head with
  | nil => exact h
  | cons x rest ih =>
      obtain ⟨b, w⟩ := x
      obtain ⟨hb, next, hcell, hrest⟩ := h
      refine ⟨hb, next, ?_, ih hrest fun c hc => hdisjoint c (List.mem_cons_of_mem _ hc)⟩
      rw [put_of_notMem (hdisjoint b List.mem_cons_self), hcell]

end Memory
