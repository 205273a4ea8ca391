import Mathlib.Data.List.Infix
import Mathlib.Data.Nat.Digits.Lemmas
import Mathlib.Tactic.IntervalCases

/-!
# Byte strings

A Lua string is a sequence of bytes; it is a `List Char` here, a byte being a character of
its own, and nothing depends on the bound 256. Of the string library only what the modelled
code calls is defined: `s:lower()` in the C locale, `s:match(p)` for patterns without magic
characters, and `("%x"):format(n)`.
-/

namespace LuaNode

abbrev Str := List Char

instance : LawfulBEq Str := inferInstance

def crlf : Str := ['\r', '\n']

/-- `s:lower()`. -/
def lower (s : Str) : Str := s.map Char.toLower

/-- `s:match(p)` succeeds, for a pattern `p` that stands for itself. -/
def contains (p s : Str) : Bool := decide (p <:+: s)

/-- `("%x"):format(n)`. -/
def hex (n : ℕ) : Str := Nat.toDigits 16 n

/-- The value of a hexadecimal digit of either case. -/
def hexValue (c : Char) : Option ℕ :=
  if '0' ≤ c ∧ c ≤ '9' then some (c.toNat - '0'.toNat)
  else if 'a' ≤ c ∧ c ≤ 'f' then some (c.toNat - 'a'.toNat + 10)
  else if 'A' ≤ c ∧ c ≤ 'F' then some (c.toNat - 'A'.toNat + 10)
  else none

/-- `tostring(n)` of a whole number. -/
def decimal (n : ℕ) : Str := Nat.toDigits 10 n

/-- `%a` in the C locale. -/
theorem isAlpha_iff_toNat (c : Char) : c.isAlpha = true ↔
    (65 ≤ c.toNat ∧ c.toNat ≤ 90) ∨ (97 ≤ c.toNat ∧ c.toNat ≤ 122) := by
  have hdef : c.isAlpha = (decide (65 ≤ c.val ∧ c.val ≤ 90) ||
      decide (97 ≤ c.val) && decide (c.val ≤ 122)) := rfl
  rw [hdef]
  simp only [Bool.or_eq_true, Bool.and_eq_true, decide_eq_true_eq, UInt32.le_iff_toNat_le]
  rfl

@[simp] theorem contains_iff (p s : Str) : contains p s = true ↔ p <:+: s := by
  simp [contains]

theorem lower_append (s t : Str) : lower (s ++ t) = lower s ++ lower t := by
  simp [lower]

/-- The last hexadecimal digit of a number stands behind the digits of its sixteenth. -/
theorem hex_eq (n : ℕ) : hex n =
    if n < 16 then [n.digitChar] else hex (n / 16) ++ [(n % 16).digitChar] := by
  unfold hex
  split_ifs with h
  · exact Nat.toDigits_of_lt_base h
  · exact Nat.toDigits_of_base_le (by omega) (by omega)

theorem hexValue_digitChar {d : ℕ} (h : d < 16) : hexValue d.digitChar = some d := by
  interval_cases d <;> rfl

/-! ### Comma-separated lists -/

/-- A string without the blanks at its two ends. -/
def trim (s : Str) : Str :=
  ((s.dropWhile fun c => c = ' ').reverse.dropWhile fun c => c = ' ').reverse

/-- The elements of a comma-separated list. -/
def elements (s : Str) : List Str := (s.splitOn ',').map trim

theorem trim_within (s : Str) : trim s <:+: s := by
  unfold trim
  have hfront : s.dropWhile (fun c => c = ' ') <:+ s := List.dropWhile_suffix _
  have hback := List.dropWhile_suffix (l := (s.dropWhile fun c => c = ' ').reverse)
    (fun c => c = ' ')
  rw [← List.reverse_prefix, List.reverse_reverse] at hback
  exact hback.isInfix.trans hfront.isInfix

theorem mem_intersperse {α : Type*} {x : α} {xs : List α} (sep : α) (h : x ∈ xs) :
    x ∈ xs.intersperse sep := by
  induction xs with
  | nil => simp at h
  | cons y ys ih =>
    cases ys with
    | nil => simpa using h
    | cons z zs =>
      rw [List.intersperse_cons_cons]
      rcases List.mem_cons.mp h with rfl | h
      · simp
      · exact List.mem_cons_of_mem _ (List.mem_cons_of_mem _ (ih h))

theorem elements_within {s t : Str} (h : t ∈ elements s) : t <:+: s := by
  obtain ⟨u, hu, rfl⟩ := List.mem_map.mp h
  have hinfix : u <:+: [','].intercalate (s.splitOn ',') :=
    List.infix_of_mem_flatten (mem_intersperse [','] hu)
  rw [List.intercalate_splitOn] at hinfix
  exact (trim_within u).trans hinfix

end LuaNode
