import Mathlib.Data.List.TakeWhile

/-!
# Cutting at a delimiter

A list in two at the end of its first run, or at the first or the last of a delimiter, which is left
out.
-/

namespace LuaNode

section Stop

variable {α : Type*} {p : α → Bool} {front rest : List α}

theorem takeWhile_append_stop (hfront : ∀ a ∈ front, p a = true)
    (hrest : ∀ a ∈ rest.head?, p a = false) : (front ++ rest).takeWhile p = front := by
  rw [List.takeWhile_append_of_pos hfront]
  cases rest with
  | nil => simp
  | cons a rest =>
    have ha : p a = false := hrest a rfl
    simp [ha]

theorem dropWhile_append_stop (hfront : ∀ a ∈ front, p a = true)
    (hrest : ∀ a ∈ rest.head?, p a = false) : (front ++ rest).dropWhile p = rest := by
  rw [List.dropWhile_append_of_pos hfront]
  cases rest with
  | nil => simp
  | cons a rest =>
    have ha : p a = false := hrest a rfl
    simp [ha]

end Stop

variable {α : Type} [DecidableEq α]

/-- What stands before the first `d`, and what stands behind it. -/
def cutFirst (d : α) : List α → List α × Option (List α)
  | [] => ([], none)
  | c :: s => if c = d then ([], some s) else (c :: (cutFirst d s).1, (cutFirst d s).2)

/-- What stands before the last `d` and what stands behind it, unless that has an element that is not
allowed there. -/
def cutLast (d : α) (allowed : α → Bool) (s : List α) : List α × Option (List α) :=
  let behind : α → Bool := fun c => c ≠ d && allowed c
  match s.reverse.dropWhile behind with
  | c :: front => if c = d then (front.reverse, some (s.reverse.takeWhile behind).reverse) else (s, none)
  | [] => (s, none)

variable {d : α}

theorem cutFirst_of_not_mem {s : List α} (h : d ∉ s) : cutFirst d s = (s, none) := by
  induction s with
  | nil => rfl
  | cons c s ih =>
    obtain ⟨hc, hs⟩ : d ≠ c ∧ d ∉ s := by simpa using h
    rw [cutFirst, if_neg (Ne.symm hc), ih hs]

theorem cutFirst_append {s : List α} (h : d ∉ s) (t : List α) :
    cutFirst d (s ++ d :: t) = (s, some t) := by
  induction s with
  | nil => exact if_pos rfl
  | cons c s ih =>
    obtain ⟨hc, hs⟩ : d ≠ c ∧ d ∉ s := by simpa using h
    rw [List.cons_append, cutFirst, if_neg (Ne.symm hc), ih hs]

/-- With a part that may be missing behind the delimiter. -/
theorem cutFirst_optional {s : List α} (h : d ∉ s) (t : Option (List α)) :
    cutFirst d (s ++ (t.map (d :: ·)).getD []) = (s, t) := by
  cases t with
  | none => simpa using cutFirst_of_not_mem h
  | some t => exact cutFirst_append h t

theorem not_mem_cutFirst (d : α) (s : List α) : d ∉ (cutFirst d s).1 := by
  induction s with
  | nil => simp [cutFirst]
  | cons c s ih =>
    by_cases hc : c = d
    · simp [cutFirst, hc]
    · simp [cutFirst, hc, Ne.symm hc, ih]

theorem prefix_cutFirst (d : α) (s : List α) : (cutFirst d s).1 <+: s := by
  induction s with
  | nil => exact List.prefix_rfl
  | cons c s ih =>
    by_cases hc : c = d
    · simp [cutFirst, hc]
    · simpa [cutFirst, hc] using ih

theorem cutLast_append {allowed : α → Bool} (s : List α) {t : List α}
    (h : ∀ c ∈ t, c ≠ d ∧ allowed c = true) : cutLast d allowed (s ++ d :: t) = (s, some t) := by
  have hbehind : ∀ c ∈ t.reverse, (decide (c ≠ d) && allowed c) = true := by
    intro c hc
    simpa using h c (List.mem_reverse.mp hc)
  have hreverse : (s ++ d :: t).reverse = t.reverse ++ d :: s.reverse := by simp
  have hstop : ∀ c ∈ (d :: s.reverse).head?, (decide (c ≠ d) && allowed c) = false := by simp
  simp only [cutLast, hreverse]
  rw [dropWhile_append_stop hbehind hstop, takeWhile_append_stop hbehind hstop]
  simp

theorem cutLast_of_not_mem {allowed : α → Bool} {s : List α} (h : d ∉ s) :
    cutLast d allowed s = (s, none) := by
  simp only [cutLast]
  split
  next c front heq =>
    have hc : c ∈ s := by
      have hmem : c ∈ s.reverse := (List.dropWhile_sublist _).subset (heq ▸ List.mem_cons_self)
      exact List.mem_reverse.mp hmem
    rw [if_neg]
    rintro rfl
    exact h hc
  next => rfl

/-- An element that is not allowed behind the delimiter hides those before it. -/
theorem cutLast_of_last {allowed : α → Bool} (s : List α) {c : α} (hc : c ≠ d)
    (h : allowed c = false) : cutLast d allowed (s ++ [c]) = (s ++ [c], none) := by
  have hreverse : (s ++ [c]).reverse = c :: s.reverse := by simp
  simp only [cutLast, hreverse]
  rw [List.dropWhile_cons_of_neg (by simp [h])]
  exact if_neg hc

end LuaNode
