import LuaNode.Library.Text

/-!
# Substrings and character classes

`s:sub(i, j)` of Lua 5.1 with its negative and out-of-range positions, and the classes `%s` and `%w` of
its patterns in the C locale.
-/

namespace LuaNode

/-- `posrelat` of `lstrlib.c`. -/
def posrelat (pos : ℤ) (length : ℕ) : ℤ :=
  if pos < 0 then max (pos + length + 1) 0 else pos

/-- `s:sub(first, last)`. -/
def sub (s : Str) (first last : ℤ) : Str :=
  let start := max (posrelat first s.length) 1
  let stop := min (posrelat last s.length) s.length
  if start ≤ stop then (s.drop (start - 1).toNat).take (stop - start + 1).toNat else []

/-- `s:sub(first)`. -/
def subFrom (s : Str) (first : ℤ) : Str := sub s first (-1)

/-- `%s`. -/
def isSpace (c : Char) : Bool := c = ' ' || (9 ≤ c.toNat && c.toNat ≤ 13)

/-- The runs of characters other than CR and LF: `s:gmatch("[^\r\n]+")`. -/
def textLines (s : Str) : List Str :=
  (s.splitOnP fun c => c = '\r' || c = '\n').filter fun line => line ≠ []

/-- `s <= t`, by bytes. -/
def bytesLe : Str → Str → Bool
  | [], _ => true
  | _ :: _, [] => false
  | c :: s, d :: t => decide (c.toNat < d.toNat) || (c == d && bytesLe s t)

theorem posrelat_of_nonneg {pos : ℤ} (h : 0 ≤ pos) (length : ℕ) : posrelat pos length = pos :=
  if_neg (by omega)

/-- The substring from the first character on is a prefix. -/
theorem sub_one (s : Str) {last : ℤ} (h : 0 ≤ last) :
    sub s 1 last = s.take last.toNat := by
  unfold sub
  rw [posrelat_of_nonneg one_pos.le, posrelat_of_nonneg h]
  simp only [max_self, sub_self, Int.toNat_zero, List.drop_zero, sub_add_cancel]
  split_ifs with hstop
  · rcases le_total last (s.length : ℤ) with hle | hge
    · rw [min_eq_left hle]
    · rw [min_eq_right hge, Int.toNat_natCast, List.take_length, List.take_of_length_le (by omega)]
  · have hempty : last.toNat = 0 ∨ s.length = 0 := by omega
    rcases hempty with hzero | hzero
    · rw [hzero, List.take_zero]
    · rw [List.length_eq_zero_iff.mp hzero, List.take_nil]

theorem length_sub_one {s : Str} {last : ℤ} (hzero : 0 ≤ last) (hlast : last ≤ s.length) :
    ((sub s 1 last).length : ℤ) = last := by
  rw [sub_one s hzero, List.length_take]
  omega

/-- The substring up to the last character is a suffix. -/
theorem subFrom_eq_drop (s : Str) {first : ℤ} (h : 0 ≤ first) :
    subFrom s first = s.drop (first.toNat - 1) := by
  have hstop : min (posrelat (-1) s.length) s.length = s.length := by
    unfold posrelat
    split_ifs <;> omega
  unfold subFrom sub
  rw [hstop, posrelat_of_nonneg h]
  dsimp only
  split_ifs with hstart
  · have hskip : (max first 1 - 1).toNat = first.toNat - 1 := by omega
    rw [hskip, List.take_of_length_le]
    rw [List.length_drop]
    omega
  · rw [List.drop_eq_nil_of_le]
    omega

end LuaNode
