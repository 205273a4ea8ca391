import LuaNode.Library.Text

/-!
# Percent-coding

A byte that is not plain is written as `%` and its two hexadecimal digits. The decoder takes the digits
of either case and leaves every other `%` as it is.
-/

namespace LuaNode

/-- `("%%%02x"):format(n)`. -/
def percentByte (n : ℕ) : Str :=
  let digits := hex n
  '%' :: (if digits.length < 2 then '0' :: digits else digits)

def percentEncode (plain : Char → Bool) (s : Str) : Str :=
  s.flatMap fun c => if plain c then [c] else percentByte c.toNat

/-- `s:gsub("%%(%x%x)", function(h) return string.char(tonumber(h, 16)) end)`. -/
def percentDecode : Str → Str
  | '%' :: a :: b :: s =>
    match hexValue a, hexValue b with
    | some high, some low => Char.ofNat (high * 16 + low) :: percentDecode s
    | _, _ => '%' :: percentDecode (a :: b :: s)
  | c :: s => c :: percentDecode s
  | [] => []

theorem percentByte_eq {n : ℕ} (h : n < 256) :
    percentByte n = ['%', (n / 16).digitChar, (n % 16).digitChar] := by
  unfold percentByte
  by_cases hsmall : n < 16
  · have hzero : n / 16 = 0 := by omega
    have hmod : n % 16 = n := by omega
    simp [hex_eq n, hsmall, hzero, hmod]
  · have hhigh : n / 16 < 16 := by omega
    simp [hex_eq n, hex_eq (n / 16), hsmall, hhigh]

theorem percentDecode_plain {c : Char} (h : c ≠ '%') (s : Str) :
    percentDecode (c :: s) = c :: percentDecode s := by
  rw [percentDecode]
  intro a b rest hc
  exact absurd hc h

theorem percentDecode_byte {n : ℕ} (h : n < 256) (s : Str) :
    percentDecode (percentByte n ++ s) = Char.ofNat n :: percentDecode s := by
  have hvalue : n / 16 * 16 + n % 16 = n := by omega
  rw [percentByte_eq h]
  simp only [List.cons_append, List.nil_append, percentDecode]
  rw [hexValue_digitChar (by omega), hexValue_digitChar (by omega)]
  simp only [hvalue]

/-- Every string of bytes comes back. -/
theorem percentDecode_encode {plain : Char → Bool} (hplain : plain '%' = false) {s : Str}
    (h : ∀ c ∈ s, c.toNat < 256) : percentDecode (percentEncode plain s) = s := by
  induction s with
  | nil => rfl
  | cons c s ih =>
    obtain ⟨hc, hs⟩ := List.forall_mem_cons.mp h
    have hrest := ih hs
    unfold percentEncode at hrest ⊢
    rw [List.flatMap_cons]
    split_ifs with hcplain
    · have hne : c ≠ '%' := by
        rintro rfl
        rw [hplain] at hcplain
        cases hcplain
      rw [List.singleton_append, percentDecode_plain hne, hrest]
    · rw [percentDecode_byte hc, hrest, Char.ofNat_toNat]

/-- What is in an encoded string. -/
theorem forall_mem_percentEncode {plain : Char → Bool} {P : Char → Prop}
    (hplain : ∀ c, plain c = true → P c) (hpercent : P '%') (hdigit : ∀ d < 16, P d.digitChar)
    {s : Str} (h : ∀ c ∈ s, c.toNat < 256) : ∀ c ∈ percentEncode plain s, P c := by
  intro c hc
  obtain ⟨b, hb, hmem⟩ := List.mem_flatMap.mp hc
  split_ifs at hmem with hbplain
  · exact List.mem_singleton.mp hmem ▸ hplain b hbplain
  · have hbyte := h b hb
    rw [percentByte_eq hbyte] at hmem
    simp only [List.mem_cons, List.not_mem_nil, or_false] at hmem
    rcases hmem with rfl | rfl | rfl
    · exact hpercent
    · exact hdigit _ (by omega)
    · exact hdigit _ (by omega)

theorem percentEncode_ne_nil {plain : Char → Bool} {s : Str} (h : s ≠ []) :
    percentEncode plain s ≠ [] := by
  cases s with
  | nil => exact absurd rfl h
  | cons c s =>
    unfold percentEncode
    rw [List.flatMap_cons]
    split_ifs <;> simp [percentByte]

end LuaNode
