import Mathlib.Data.List.Infix
import Mathlib.Tactic.TypeStar

/-!
# Lines that an element ends

A list is read from the front, with the line that has begun as the state: `completeLines` are the lines that
are ended, and `unfinished` is what is left. Reading in parts carries the unfinished line over the cut.
-/

namespace LuaNode

variable {α : Type*} [DecidableEq α] (stop : α)

/-- The lines that `stop` ends, of which the first one has begun. -/
def completeLines : List α → List α → List (List α)
  | _, [] => []
  | begun, c :: rest =>
    if c = stop then begun :: completeLines [] rest else completeLines (begun ++ [c]) rest

/-- The line that has no end. -/
def unfinished : List α → List α → List α
  | begun, [] => begun
  | begun, c :: rest => if c = stop then unfinished [] rest else unfinished (begun ++ [c]) rest

variable {stop}

@[simp] theorem completeLines_nil (begun : List α) : completeLines stop begun [] = [] := rfl

@[simp] theorem unfinished_nil (begun : List α) : unfinished stop begun [] = begun := rfl

theorem completeLines_append (begun l r : List α) :
    completeLines stop begun (l ++ r) =
      completeLines stop begun l ++ completeLines stop (unfinished stop begun l) r := by
  induction l generalizing begun with
  | nil => rfl
  | cons c l ih =>
    by_cases hc : c = stop
    · simp [completeLines, unfinished, hc, ih]
    · simp [completeLines, unfinished, hc, ih]

theorem unfinished_append (begun l r : List α) :
    unfinished stop begun (l ++ r) = unfinished stop (unfinished stop begun l) r := by
  induction l generalizing begun with
  | nil => rfl
  | cons c l ih =>
    by_cases hc : c = stop
    · simp [unfinished, hc, ih]
    · simp [unfinished, hc, ih]

theorem completeLines_of_not_mem (begun : List α) {l : List α} (h : stop ∉ l) :
    completeLines stop begun l = [] := by
  induction l generalizing begun with
  | nil => rfl
  | cons c l ih =>
    obtain ⟨hc, hl⟩ : stop ≠ c ∧ stop ∉ l := by simpa using h
    simp [completeLines, Ne.symm hc, ih _ hl]

theorem unfinished_of_not_mem (begun : List α) {l : List α} (h : stop ∉ l) :
    unfinished stop begun l = begun ++ l := by
  induction l generalizing begun with
  | nil => simp
  | cons c l ih =>
    obtain ⟨hc, hl⟩ : stop ≠ c ∧ stop ∉ l := by simpa using h
    simp [unfinished, Ne.symm hc, ih _ hl]

/-- What is left contains no end. -/
theorem not_mem_unfinished {begun : List α} (h : stop ∉ begun) (l : List α) :
    stop ∉ unfinished stop begun l := by
  induction l generalizing begun with
  | nil => exact h
  | cons c l ih =>
    by_cases hc : c = stop
    · simpa [unfinished, hc] using ih List.not_mem_nil
    · have hbegun : stop ∉ begun ++ [c] := by simp [h, Ne.symm hc]
      simpa [unfinished, hc] using ih hbegun

theorem not_mem_completeLines {begun : List α} (h : stop ∉ begun) {l line : List α}
    (hline : line ∈ completeLines stop begun l) : stop ∉ line := by
  induction l generalizing begun with
  | nil => simp at hline
  | cons c l ih =>
    by_cases hc : c = stop
    · simp only [completeLines, hc, if_true, List.mem_cons] at hline
      rcases hline with rfl | hline
      · exact h
      · exact ih List.not_mem_nil hline
    · have hbegun : stop ∉ begun ++ [c] := by simp [h, Ne.symm hc]
      simp only [completeLines, hc, if_false] at hline
      exact ih hbegun hline

/-- Nothing is left behind an end, and after anything else something is. -/
theorem unfinished_eq_nil_iff (begun l : List α) :
    unfinished stop begun l = [] ↔ (begun = [] ∧ l = []) ∨ l.getLast? = some stop := by
  rcases List.eq_nil_or_concat' l with rfl | ⟨front, c, rfl⟩
  · simp
  · rw [unfinished_append]
    by_cases hc : c = stop
    · simp [unfinished, hc]
    · simp [unfinished, hc]

end LuaNode
