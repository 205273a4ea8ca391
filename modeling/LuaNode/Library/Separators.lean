import Mathlib.Data.List.Infix

/-!
# Separators of two elements

A list is split at every occurrence of `[a, b]`, or broken at the first one. Where `a` and `b` differ
an occurrence does not overlap another one, and pieces that were put together come back as they were
exactly when the separator is in none of them.
-/

namespace LuaNode

variable {α : Type*} {a b : α}

theorem infix_cons_cons {c d : α} {rest : List α} :
    [a, b] <:+: c :: d :: rest ↔ (c = a ∧ d = b) ∨ [a, b] <:+: d :: rest := by
  rw [List.infix_cons_iff]
  refine or_congr_left ?_
  rw [List.cons_prefix_cons, List.cons_prefix_cons]
  exact ⟨fun h => ⟨h.1.symm, h.2.1.symm⟩, fun h => ⟨h.1.symm, h.2.symm, List.nil_prefix⟩⟩

theorem not_infix_singleton (c : α) : ¬[a, b] <:+: [c] :=
  fun h => absurd h.length_le (by simp)

/-- Around an element that is in no separator, one is on one of the two sides. -/
theorem infix_append_cons {c : α} (ha : c ≠ a) (hb : c ≠ b) (l r : List α) :
    [a, b] <:+: l ++ c :: r ↔ [a, b] <:+: l ∨ [a, b] <:+: r := by
  have hhead : [a, b] <:+: c :: r ↔ [a, b] <:+: r := by
    cases r with
    | nil => simp [not_infix_singleton]
    | cons d r => rw [infix_cons_cons, or_iff_right fun h => ha h.1]
  induction l with
  | nil => simp [hhead]
  | cons x l ih =>
    cases l with
    | nil =>
      rw [List.cons_append, List.nil_append, infix_cons_cons, or_iff_right fun h => hb h.2, hhead,
        or_iff_right (not_infix_singleton x)]
    | cons y l =>
      rw [List.cons_append, List.cons_append, infix_cons_cons, infix_cons_cons, or_assoc]
      exact or_congr_right ih

variable [DecidableEq α] (a b)

/-- The pieces of a list between the occurrences of `[a, b]`. -/
def splitPieces : List α → List (List α)
  | [] => [[]]
  | [c] => [[c]]
  | c :: d :: rest =>
    if c = a ∧ d = b then [] :: splitPieces rest
    else (splitPieces (d :: rest)).modifyHead (c :: ·)

/-- What is before and behind the first occurrence of `[a, b]`. -/
def breakFirst : List α → Option (List α × List α)
  | [] => none
  | [_] => none
  | c :: d :: rest =>
    if c = a ∧ d = b then some ([], rest)
    else (breakFirst (d :: rest)).map fun p => (c :: p.1, p.2)

variable {a b}

theorem splitPieces_ne_nil (l : List α) : splitPieces a b l ≠ [] := by
  fun_induction splitPieces a b l with
  | case1 => simp
  | case2 => simp
  | case3 => simp
  | case4 c d rest hsep ih =>
    cases h : splitPieces a b (d :: rest) with
    | nil => exact absurd h ih
    | cons p ps => simp

/-- A list without the separator is one piece, and no other list is. -/
theorem length_splitPieces_iff (l : List α) :
    (splitPieces a b l).length = 1 ↔ ¬[a, b] <:+: l := by
  fun_induction splitPieces a b l with
  | case1 => simp
  | case2 c => simp [not_infix_singleton]
  | case3 c d rest hsep ih =>
    have hlength := List.length_pos_of_ne_nil (splitPieces_ne_nil (a := a) (b := b) rest)
    rw [infix_cons_cons]
    refine iff_of_false ?_ (not_not.mpr (Or.inl hsep))
    rw [List.length_cons]
    omega
  | case4 c d rest hsep ih =>
    rw [infix_cons_cons, or_iff_right hsep, ← ih, List.length_modifyHead]

theorem splitPieces_eq {l : List α} (h : ¬[a, b] <:+: l) : splitPieces a b l = [l] := by
  fun_induction splitPieces a b l with
  | case1 => rfl
  | case2 => rfl
  | case3 c d rest hsep ih => exact absurd (infix_cons_cons.mpr (Or.inl hsep)) h
  | case4 c d rest hsep ih =>
    rw [ih fun hrest => h (infix_cons_cons.mpr (Or.inr hrest))]
    rfl

/-- At a separator the pieces on its two sides are put one behind the other. -/
theorem splitPieces_append (hne : a ≠ b) (l r : List α) :
    splitPieces a b (l ++ a :: b :: r) = splitPieces a b l ++ splitPieces a b r := by
  fun_induction splitPieces a b l with
  | case1 => simp [splitPieces]
  | case2 c =>
    -- the last element before the separator cannot begin one
    have hsep : ¬(c = a ∧ a = b) := fun h => hne h.2
    simp [splitPieces, hsep]
  | case3 c d rest hsep ih =>
    obtain ⟨rfl, rfl⟩ := hsep
    simp [splitPieces, ih]
  | case4 c d rest hsep ih =>
    rw [List.cons_append, List.cons_append, splitPieces, if_neg hsep, ← List.cons_append, ih]
    cases h : splitPieces a b (d :: rest) with
    | nil => exact absurd h (splitPieces_ne_nil _)
    | cons p ps => rfl

/-- The first separator is the one that stands behind `l` exactly when `l` has none. -/
theorem breakFirst_append (hne : a ≠ b) (l r : List α) :
    breakFirst a b (l ++ a :: b :: r) = some (l, r) ↔ ¬[a, b] <:+: l := by
  fun_induction splitPieces a b l with
  | case1 => simp [breakFirst]
  | case2 c =>
    have hsep : ¬(c = a ∧ a = b) := fun h => hne h.2
    simp [breakFirst, hsep, not_infix_singleton]
  | case3 c d rest hsep ih =>
    rw [infix_cons_cons]
    refine iff_of_false ?_ (not_not.mpr (Or.inl hsep))
    simp [breakFirst, hsep]
  | case4 c d rest hsep ih =>
    rw [infix_cons_cons, or_iff_right hsep, ← ih, List.cons_append, List.cons_append, breakFirst,
      if_neg hsep, ← List.cons_append]
    cases breakFirst a b (d :: rest ++ a :: b :: r) with
    | none => simp
    | some p => simp [Prod.ext_iff]

end LuaNode
