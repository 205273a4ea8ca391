import LuaNode.Library.Delimiter
import LuaNode.Readline.EmitKey

/-!
# Function keys

The codes of `keymap`, as they are and with a modifier number written into them, against the key
`emitKey` makes of them.
-/

namespace LuaNode.Readline

/-- `%d+` as a whole. -/
structure Digits (s : Str) : Prop where
  nonempty : s ≠ []
  digit : ∀ c ∈ s, c.isDigit = true

/-- A code with the digits of a modifier number written into it, by the forms listed above
`parseFunctionKeyCode`. -/
inductive Inserted (digits : Str) : Str → Str → Prop
  /-- `ESC [ modifier letter` -/
  | bracketLetter {letter : Char} (h : letter.isAlpha = true) :
      Inserted digits ['[', letter] ('[' :: (digits ++ [letter]))
  /-- `ESC [ 1 ; modifier letter` -/
  | bracketOneLetter {letter : Char} (h : letter.isAlpha = true) :
      Inserted digits ['[', letter] ('[' :: '1' :: ';' :: (digits ++ [letter]))
  /-- `ESC [ num ; modifier char` -/
  | bracketChar {num : Str} {char : Char} (hnum : Digits num) (h : char ∈ ['~', '$', '^']) :
      Inserted digits ('[' :: (num ++ [char])) ('[' :: (num ++ ';' :: (digits ++ [char])))
  /-- `ESC O modifier letter` -/
  | oLetter {letter : Char} (h : letter.isAlpha = true) :
      Inserted digits ['O', letter] ('O' :: (digits ++ [letter]))
  /-- `ESC O 1 ; modifier letter` -/
  | oOneLetter {letter : Char} (h : letter.isAlpha = true) :
      Inserted digits ['O', letter] ('O' :: '1' :: ';' :: (digits ++ [letter]))
  /-- `ESC [ [ num ; modifier char` -/
  | doubleChar {num : Str} {char : Char} (hnum : Digits num) (h : char ∈ ['~', '$', '^']) :
      Inserted digits ('[' :: '[' :: (num ++ [char])) ('[' :: '[' :: (num ++ ';' :: (digits ++ [char])))
  /-- `ESC [ [ 1 ; modifier letter` -/
  | doubleOneLetter {letter : Char} (h : letter.isAlpha = true) :
      Inserted digits ['[', '[', letter] ('[' :: '[' :: '1' :: ';' :: (digits ++ [letter]))

/-- What a terminal sends for a code behind its ESC, with the modifier number of it. -/
inductive Spelling (code : Str) : ℕ → Str → Prop
  | plain : Spelling code 1 code
  | modified {digits sequence : Str} (hdigits : Digits digits) (h : Inserted digits code sequence) :
      Spelling code (Nat.ofDigitChars 10 digits 0) sequence

/-- The key of a table entry with the bits of a modifier. -/
def keyOf (entry : KeymapEntry) (bits : ℕ) : EmittedKey where
  name := entry.name
  ctrl := entry.ctrl || bits.testBit 2
  isMeta := bits.testBit 1 || bits.testBit 3
  shift := entry.shift || bits.testBit 0

def Decodes (windows : Bool) (s : Str) (entry : KeymapEntry) (modifier : ℕ) : Prop :=
  ∃ char, emitKey windows s = .ok [⟨char, some (keyOf entry (modifier - 1))⟩]

/-- A modifier number less one, in doubles. -/
def doubleLess (modifier : ℕ) : Option ℕ := (toDouble modifier).bind fun n => toDouble (n - 1)

/-- The codes of the table that no pattern matches as they are. -/
def unmatched : List Str := ["[[5~".toList, "[[6~".toList]

/-- The flags of a modifier number outlast its rounding. -/
def FlagsKept (entry : KeymapEntry) (modifier : ℕ) : Prop :=
  ∃ n ∈ doubleLess modifier, keyOf entry n = keyOf entry (modifier - 1)

/-! ### Digits and what stands behind them -/

theorem not_isAlpha_of_isDigit {c : Char} (h : c.isDigit = true) : c.isAlpha = false := by
  have hcode : 48 ≤ c.toNat ∧ c.toNat ≤ 57 := Char.isDigit_iff_toNat.mp h
  rw [Bool.eq_false_iff, ne_eq, isAlpha_iff_toNat]
  omega

theorem not_isDigit_of_isAlpha {c : Char} (h : c.isAlpha = true) : c.isDigit = false := by
  cases hdigit : c.isDigit with
  | false => rfl
  | true => rw [not_isAlpha_of_isDigit hdigit] at h; cases h

/-- None of `~`, `$` and `^` is a digit or a letter. -/
theorem not_isAlphanum_of_mem {c : Char} (h : c ∈ ['~', '$', '^']) :
    c.isDigit = false ∧ c.isAlpha = false := by
  simp only [List.mem_cons, List.not_mem_nil, or_false] at h
  rcases h with rfl | rfl | rfl <;> decide

theorem not_mem_of_isAlpha {c : Char} (h : c.isAlpha = true) : c ∉ ['~', '$', '^'] := by
  intro hmem
  rw [(not_isAlphanum_of_mem hmem).2] at h
  cases h

theorem ne_semicolon_of_isAlpha {c : Char} (h : c.isAlpha = true) : c ≠ ';' := by
  rintro rfl
  exact absurd h (by decide)

theorem isDigit_semicolon : (';' : Char).isDigit = false := by decide

/-- The `1` of `1;`. -/
theorem digits_one : Digits ['1'] := ⟨by simp, by simp⟩

theorem Digits.takeWhile {digits : Str} (h : Digits digits) {c : Char} (hc : c.isDigit = false)
    (rest : Str) : (digits ++ c :: rest).takeWhile Char.isDigit = digits := by
  have hstop : ∀ d ∈ (c :: rest).head?, d.isDigit = false := by simpa using hc
  exact takeWhile_append_stop h.digit hstop

theorem Digits.dropWhile {digits : Str} (h : Digits digits) {c : Char} (hc : c.isDigit = false)
    (rest : Str) : (digits ++ c :: rest).dropWhile Char.isDigit = c :: rest := by
  have hstop : ∀ d ∈ (c :: rest).head?, d.isDigit = false := by simpa using hc
  exact dropWhile_append_stop h.digit hstop

theorem Digits.digitsOf {digits : Str} (h : Digits digits) {c : Char} (hc : c.isDigit = false)
    (rest : Str) : digitsOf (digits ++ c :: rest) = some (digits, c :: rest) := by
  rw [LuaNode.Readline.digitsOf, h.takeWhile hc, h.dropWhile hc, if_neg h.nonempty]

theorem Digits.letterOf {digits : Str} (h : Digits digits) (rest : Str) :
    letterOf (digits ++ rest) = none := by
  obtain ⟨d, ds, rfl⟩ := List.exists_cons_of_ne_nil h.nonempty
  have hd := not_isAlpha_of_isDigit (h.digit d List.mem_cons_self)
  simp [LuaNode.Readline.letterOf, hd]

theorem digitsLetter_append {digits : Str} (h : Digits digits) {c : Char}
    (hc : c.isDigit = false) (rest : Str) :
    digitsLetter (digits ++ c :: rest) = if c.isAlpha then some (digits, c) else none := by
  by_cases halpha : c.isAlpha = true
  · simp [digitsLetter, h.digitsOf hc, letterOf, halpha]
  · simp [digitsLetter, h.digitsOf hc, letterOf, halpha]

theorem digitsChar_append {digits : Str} (h : Digits digits) {c : Char}
    (hc : c.isDigit = false) (rest : Str) : digitsChar (digits ++ c :: rest) =
      if c ∈ ['~', '$', '^'] then some (digits, c) else none := by
  by_cases hchar : c ∈ ['~', '$', '^']
  · have hchars : c = '~' ∨ c = '$' ∨ c = '^' := by simpa using hchar
    simp [digitsChar, h.digitsOf hc, charOf, hchars]
  · have hchars : ¬ (c = '~' ∨ c = '$' ∨ c = '^') := by simpa using hchar
    simp [digitsChar, h.digitsOf hc, charOf, hchars]

/-- Only one digit and a semicolon are read as the `1;` of a modifier. -/
theorem oneDigitsLetter_append {num : Str} (h : Digits num) (c : Char) (rest : Str) :
    oneDigitsLetter (num ++ c :: rest) =
      if num = ['1'] ∧ c = ';' then digitsLetter rest else none := by
  obtain ⟨d, ds, rfl⟩ := List.exists_cons_of_ne_nil h.nonempty
  cases ds with
  | nil =>
    by_cases hone : d = '1' ∧ c = ';'
    · obtain ⟨rfl, rfl⟩ := hone
      rfl
    · rw [if_neg (by simpa using hone)]
      unfold oneDigitsLetter
      split
      · rename_i heq
        simp_all
      · rfl
  | cons e es =>
    have he := h.digit e (by simp)
    have hsemi : e ≠ ';' := by
      rintro rfl
      exact absurd he (by decide)
    rw [if_neg (by simp)]
    unfold oneDigitsLetter
    split
    · rename_i heq
      simp_all
    · rfl

theorem digitsDigitsChar_append {num digits : Str} (hnum : Digits num) (hdigits : Digits digits)
    {char : Char} (h : char ∈ ['~', '$', '^']) (rest : Str) :
    digitsDigitsChar (num ++ ';' :: (digits ++ char :: rest)) = some (num, digits, char) := by
  have hchar := digitsChar_append hdigits (not_isAlphanum_of_mem h).1 rest
  rw [if_pos h] at hchar
  simp [digitsDigitsChar, hnum.digitsOf isDigit_semicolon, hchar]

theorem digitsDigitsChar_letter {digits : Str} (h : Digits digits) {letter : Char}
    (hletter : letter.isAlpha = true) (rest : Str) :
    digitsDigitsChar ('1' :: ';' :: (digits ++ letter :: rest)) = none := by
  have hread := digits_one.digitsOf isDigit_semicolon (digits ++ letter :: rest)
  have hchar := digitsChar_append h (not_isDigit_of_isAlpha hletter) rest
  rw [if_neg (not_mem_of_isAlpha hletter)] at hchar
  change digitsDigitsChar (['1'] ++ ';' :: (digits ++ letter :: rest)) = none
  unfold digitsDigitsChar
  rw [hread]
  simp [hchar]

/-- `1;`, the digits and the letter. -/
theorem oneDigitsLetter_letter {digits : Str} (h : Digits digits) {letter : Char}
    (hletter : letter.isAlpha = true) (rest : Str) :
    oneDigitsLetter ('1' :: ';' :: (digits ++ letter :: rest)) = some (digits, letter) := by
  have hread := digitsLetter_append h (not_isDigit_of_isAlpha hletter) rest
  rw [if_pos hletter] at hread
  exact hread

/-! ### Codes read back -/

theorem partsOf_bracket {c : Char} (h : c ≠ '[') (rest : Str) :
    partsOf ('[' :: c :: rest) = partsOfBracket (c :: rest) := by
  unfold partsOf
  split <;> simp_all

theorem partsOf_bracket_digits {num : Str} (h : Digits num) (rest : Str) :
    partsOf ('[' :: (num ++ rest)) = partsOfBracket (num ++ rest) := by
  obtain ⟨d, ds, rfl⟩ := List.exists_cons_of_ne_nil h.nonempty
  have hd := h.digit d List.mem_cons_self
  have hne : d ≠ '[' := by
    rintro rfl
    exact absurd hd (by decide)
  exact partsOf_bracket hne (ds ++ rest)

def CodeParts.code (parts : CodeParts) : Str :=
  parts.pre ++ parts.letter ++ parts.num ++ parts.char

/-- The parts of a code and its digits are those that were put together. -/
theorem partsOf_inserted {digits code sequence : Str} (hdigits : Digits digits)
    (h : Inserted digits code sequence) :
    (partsOf sequence).modifier = some digits ∧ (partsOf sequence).code = code := by
  cases h with
  | @bracketLetter letter hletter =>
    have hnochar := digitsChar_append hdigits (not_isDigit_of_isAlpha hletter) []
    rw [if_neg (not_mem_of_isAlpha hletter)] at hnochar
    have hnoone := oneDigitsLetter_append hdigits letter []
    rw [if_neg fun h => ne_semicolon_of_isAlpha hletter h.2] at hnoone
    have hread := digitsLetter_append hdigits (not_isDigit_of_isAlpha hletter) []
    rw [if_pos hletter] at hread
    rw [partsOf_bracket_digits hdigits, partsOfBracket, hdigits.letterOf, hnochar, hnoone, hread]
    exact ⟨rfl, rfl⟩
  | @bracketOneLetter letter hletter =>
    have hnochar := digitsChar_append digits_one isDigit_semicolon (digits ++ [letter])
    have hread := oneDigitsLetter_letter hdigits hletter []
    have hparts := partsOf_bracket_digits digits_one (';' :: (digits ++ [letter]))
    have hnoletter := digits_one.letterOf (';' :: (digits ++ [letter]))
    simp only [List.cons_append, List.nil_append] at hparts hnochar hnoletter
    rw [hparts, partsOfBracket, hnoletter, hnochar, hread]
    exact ⟨rfl, rfl⟩
  | @bracketChar num char hnum hchar =>
    have hnochar := digitsChar_append hnum isDigit_semicolon (digits ++ [char])
    have hnoletter := digitsLetter_append hdigits (not_isAlphanum_of_mem hchar).1 []
    rw [(not_isAlphanum_of_mem hchar).2] at hnoletter
    have hnoone : oneDigitsLetter (num ++ ';' :: (digits ++ [char])) = none := by
      rw [oneDigitsLetter_append hnum, hnoletter]
      exact ite_self _
    have hnomodifier := digitsLetter_append hnum isDigit_semicolon (digits ++ [char])
    have hread := digitsDigitsChar_append hnum hdigits hchar []
    rw [partsOf_bracket_digits hnum, partsOfBracket, hnum.letterOf, hnochar, hnoone, hnomodifier,
      hread]
    exact ⟨rfl, by simp [CodeParts.code]⟩
  | @oLetter letter hletter =>
    have hread := digitsLetter_append hdigits (not_isDigit_of_isAlpha hletter) []
    rw [if_pos hletter] at hread
    change (partsOfO _).modifier = _ ∧ (partsOfO _).code = _
    rw [partsOfO, hdigits.letterOf, hread]
    exact ⟨rfl, rfl⟩
  | @oOneLetter letter hletter =>
    have hnoletter := digits_one.letterOf (';' :: (digits ++ [letter]))
    have hnomodifier := digitsLetter_append digits_one isDigit_semicolon (digits ++ [letter])
    have hread := oneDigitsLetter_letter hdigits hletter []
    simp only [List.cons_append, List.nil_append] at hnoletter hnomodifier
    change (partsOfO _).modifier = _ ∧ (partsOfO _).code = _
    rw [partsOfO, hnoletter, hnomodifier, hread]
    exact ⟨rfl, rfl⟩
  | @doubleChar num char hnum hchar =>
    have hread := digitsDigitsChar_append hnum hdigits hchar []
    change (partsOfDouble _).modifier = _ ∧ (partsOfDouble _).code = _
    rw [partsOfDouble, hread]
    exact ⟨rfl, by simp [CodeParts.code]⟩
  | @doubleOneLetter letter hletter =>
    have hnone := digitsDigitsChar_letter hdigits hletter []
    have hread := oneDigitsLetter_letter hdigits hletter []
    change (partsOfDouble _).modifier = _ ∧ (partsOfDouble _).code = _
    rw [partsOfDouble, hnone, hread]
    exact ⟨rfl, rfl⟩

/-! ### From the code to the key -/

theorem behindEscapes_append {escapes : Str} (h : escapes = [esc] ∨ escapes = [esc, esc]) {c : Char}
    (hc : c ≠ esc) (rest : Str) : behindEscapes (escapes ++ c :: rest) = some (c :: rest) := by
  rcases h with rfl | rfl
  · simp [behindEscapes, hc]
  · simp [behindEscapes, hc]

/-- A code is read from everything behind the ESC bytes. -/
theorem parseFunctionKeyCode_append {escapes : Str} (h : escapes = [esc] ∨ escapes = [esc, esc])
    {c : Char} (hc : c ≠ esc) (rest : Str) : parseFunctionKeyCode (escapes ++ c :: rest) =
      ((partsOf (c :: rest)).code, lessOne (partsOf (c :: rest)).modifier) := by
  rw [parseFunctionKeyCode, behindEscapes_append h hc]
  rfl

/-- ESC and two bytes or more are a code. -/
theorem readKey_escape (windows : Bool) {rest : Str} (h : 2 ≤ rest.length) {code : Str}
    {modifier : Option ℤ} (hparse : parseFunctionKeyCode (esc :: rest) = (code, modifier))
    (hcode : code ≠ []) : readKey windows (esc :: rest) = functionKey code modifier := by
  obtain ⟨c, rest, rfl⟩ := List.exists_cons_of_length_pos (show 0 < rest.length by omega)
  obtain ⟨d, rest, rfl⟩ := List.exists_cons_of_ne_nil (show rest ≠ [] by rintro rfl; simp at h)
  have hle : bytesLe (esc :: c :: d :: rest) [sub26] = false := by
    have hgreater : ¬ esc.toNat < sub26.toNat ∧ esc ≠ sub26 := by decide
    simp [bytesLe, hgreater]
  have hmeta : metaLetter (esc :: c :: d :: rest) = none := rfl
  unfold readKey
  rw [hmeta, hparse]
  simp [hle, hcode]

/-! ### The bits of a modifier -/

/-- A mask of one hexadecimal digit leaves the other digits to `bit.bxor` as they are. -/
theorem bxor_digit (a : ℕ) {mask : ℕ} (hpos : 0 < mask) (hmask : mask < 16) :
    bxor a mask = (a % 16 ^^^ mask : ℕ) + 16 * (a / 16 : ℕ) := by
  have hzero : bxor ((a : ℤ) / 16) 0 = (a / 16 : ℕ) := by
    rw [bxor, if_neg (by omega)]
    omega
  have hdigit : ((a : ℤ) % 16).toNat = a % 16 := by omega
  have hmod : ((mask : ℤ) % 16).toNat = mask := by omega
  have hdiv : (mask : ℤ) / 16 = 0 := by omega
  rcases a.eq_zero_or_pos with rfl | ha
  · rw [bxor, if_neg (by omega)]
    simp
  · rw [bxor, if_pos (by omega), hdigit, hmod, hdiv, hzero]

/-- Only the last hexadecimal digit counts under such a mask. -/
theorem band_mod (a : ℕ) {mask : ℕ} (hpos : 0 < mask) (hmask : mask < 16) :
    band a mask = band (a % 16 : ℕ) mask := by
  rw [band, band, bxor_digit a hpos hmask, bxor_digit (a % 16) hpos hmask, Nat.mod_mod]
  congr 1
  omega

theorem testBit_mod_sixteen (a : ℕ) {i : ℕ} (h : i < 4) : (a % 16).testBit i = a.testBit i := by
  have hmod := Nat.testBit_mod_two_pow a 4 i
  simpa [h] using hmod

/-- The masks of `emitKey` on one hexadecimal digit. -/
theorem band_digit : ∀ a < 16, decide (band (a : ℕ) 1 ≠ 0) = a.testBit 0 ∧
    decide (band (a : ℕ) 4 ≠ 0) = a.testBit 2 ∧
    decide (band (a : ℕ) 10 ≠ 0) = (a.testBit 1 || a.testBit 3) := by
  decide +kernel

theorem band_bits (n : ℕ) : decide (band n 1 ≠ 0) = n.testBit 0 ∧
    decide (band n 4 ≠ 0) = n.testBit 2 ∧
    decide (band n 10 ≠ 0) = (n.testBit 1 || n.testBit 3) := by
  have hone : band n 1 = band (n % 16 : ℕ) 1 := @band_mod n 1 (by omega) (by omega)
  have hfour : band n 4 = band (n % 16 : ℕ) 4 := @band_mod n 4 (by omega) (by omega)
  have hten : band n 10 = band (n % 16 : ℕ) 10 := @band_mod n 10 (by omega) (by omega)
  have hbit : ∀ i < 4, (n % 16).testBit i = n.testBit i := fun _ => testBit_mod_sixteen n
  rw [hone, hfour, hten, ← hbit 0 (by omega), ← hbit 1 (by omega), ← hbit 2 (by omega),
    ← hbit 3 (by omega)]
  exact band_digit (n % 16) (by omega)

/-- The key of an entry of the table. -/
theorem functionKey_of_lookup {code : Str} {entry : KeymapEntry}
    (h : keymap.lookup code = some entry) (n : ℕ) :
    functionKey code (some n) = .key (keyOf entry n) := by
  obtain ⟨hshift, hctrl, hmeta⟩ := band_bits n
  rw [functionKey, h, keyOf]
  simp only [Option.getD_some, hshift, hctrl, hmeta]

/-! ### The table -/

theorem doubleLess_of_le {n : ℕ} (h : n ≤ 2 ^ 53) : doubleLess n = some (n - 1) := by
  rw [doubleLess, toDouble_of_le h, Option.bind_some, toDouble_of_le (by omega)]

theorem flagsKept_of_le (entry : KeymapEntry) {modifier : ℕ} (h : modifier ≤ 2 ^ 53) :
    FlagsKept entry modifier :=
  ⟨modifier - 1, doubleLess_of_le h, rfl⟩

theorem lessOne_digits {digits : Str} (h : 1 ≤ Nat.ofDigitChars 10 digits 0) :
    lessOne (some digits) = (doubleLess (Nat.ofDigitChars 10 digits 0)).map Int.ofNat := by
  generalize hvalue : Nat.ofDigitChars 10 digits 0 = modifier at h ⊢
  have hpos : ∀ n, toDouble modifier = some n → 0 < n := fun n => toDouble_pos h
  rw [lessOne.eq_def, doubleLess]
  simp only [hvalue]
  generalize toDouble modifier = rounded at hpos ⊢
  cases rounded with
  | none => rfl
  | some n =>
    obtain ⟨k, rfl⟩ := Nat.exists_eq_succ_of_ne_zero (hpos n rfl).ne'
    rfl

/-- What every entry of the table is. -/
theorem keymap_entries : ∀ p ∈ keymap, keymap.lookup p.1 = some p.2 ∧
    p.2.name ≠ "undefined".toList ∧ 2 ≤ p.1.length ∧ p.1.head? ≠ some esc ∧
    (p.1 ∉ unmatched → (partsOf p.1).code = p.1 ∧ (partsOf p.1).modifier = none) := by
  decide +kernel

theorem Inserted.cons {digits code sequence : Str} (h : Inserted digits code sequence) :
    ∃ c rest, sequence = c :: rest ∧ c ≠ esc ∧ rest ≠ [] := by
  cases h with
  | bracketLetter => exact ⟨_, _, rfl, by decide, by simp⟩
  | bracketOneLetter => exact ⟨_, _, rfl, by decide, by simp⟩
  | bracketChar => exact ⟨_, _, rfl, by decide, by simp⟩
  | oLetter => exact ⟨_, _, rfl, by decide, by simp⟩
  | oOneLetter => exact ⟨_, _, rfl, by decide, by simp⟩
  | doubleChar => exact ⟨_, _, rfl, by decide, by simp⟩
  | doubleOneLetter => exact ⟨_, _, rfl, by decide, by simp⟩

/-- A form of the grammar is read as its code with its modifier, less one. -/
theorem parse_spelling {escapes : Str} (hescapes : escapes = [esc] ∨ escapes = [esc, esc])
    {code : Str} {entry : KeymapEntry} (hcode : (code, entry) ∈ keymap) {modifier : ℕ}
    {sequence : Str} (hmodifier : 1 ≤ modifier) (h : Spelling code modifier sequence)
    (hmatched : sequence ∉ unmatched) :
    parseFunctionKeyCode (escapes ++ sequence) = (code, (doubleLess modifier).map Int.ofNat) := by
  cases h with
  | plain =>
    obtain ⟨-, -, hlength, hesc, hparts⟩ := keymap_entries _ hcode
    obtain ⟨hparts, hnone⟩ := hparts hmatched
    obtain ⟨c, rest, rfl⟩ := List.exists_cons_of_length_pos (two_pos.trans_le hlength)
    have hc : c ≠ esc := fun heq => hesc (congrArg some heq)
    rw [parseFunctionKeyCode_append hescapes hc, hparts, hnone, doubleLess_of_le (by norm_num)]
    rfl
  | @modified digits _ hdigits h =>
    obtain ⟨hmod, hparts⟩ := partsOf_inserted hdigits h
    obtain ⟨c, rest, rfl, hc, -⟩ := h.cons
    rw [parseFunctionKeyCode_append hescapes hc, hparts, hmod, lessOne_digits hmodifier]

/-- The codes that are not matched are read as `[[`. -/
theorem emitKey_unmatched : ∀ windows, ∀ escapes ∈ [[esc], [esc, esc]], ∀ sequence ∈ unmatched,
    emitKey windows (escapes ++ sequence) =
      .ok [⟨none, some ⟨"undefined".toList, false, false, false⟩⟩] := by
  decide +kernel

theorem Spelling.length {code : Str} {entry : KeymapEntry} (hcode : (code, entry) ∈ keymap)
    {modifier : ℕ} {sequence : Str} (h : Spelling code modifier sequence) :
    2 ≤ sequence.length := by
  cases h with
  | plain => exact (keymap_entries _ hcode).2.2.1
  | modified _ h =>
    obtain ⟨c, rest, rfl, -, hne⟩ := h.cons
    have hpos := List.length_pos_iff.mpr hne
    rw [List.length_cons]
    omega

/-- One keypress with the bits of the rounded modifier, or an error where that is infinite. -/
theorem emitKey_spelling (windows : Bool) {escapes : Str}
    (hescapes : escapes = [esc] ∨ escapes = [esc, esc]) {code : Str} {entry : KeymapEntry}
    (hcode : (code, entry) ∈ keymap) {modifier : ℕ} {sequence : Str} (hmodifier : 1 ≤ modifier)
    (h : Spelling code modifier sequence) (hmatched : sequence ∉ unmatched) :
    emitKey windows (escapes ++ sequence) = match doubleLess modifier with
      | none => .error "attempt to index field '?' (a nil value)".toList
      | some n => .ok [⟨none, some (keyOf entry n)⟩] := by
  have hlength := h.length hcode
  obtain ⟨hlookup, -, hcodes, -⟩ := keymap_entries _ hcode
  have hne : code ≠ [] := by
    rintro rfl
    simp at hcodes
  have hparse := parse_spelling hescapes hcode hmodifier h hmatched
  obtain ⟨rest, hspell, hrest⟩ : ∃ rest, escapes ++ sequence = esc :: rest ∧ 2 ≤ rest.length := by
    rcases hescapes with rfl | rfl
    · exact ⟨sequence, rfl, hlength⟩
    · exact ⟨esc :: sequence, rfl, by rw [List.length_cons]; omega⟩
  rw [hspell] at hparse ⊢
  rw [emitKey, readKey_escape windows hrest hparse hne]
  cases doubleLess modifier with
  | none => rfl
  | some n =>
    change (if functionKey code (some n) = .each then emitBytes windows (esc :: rest)
      else emitRead (esc :: rest) (functionKey code (some n))) = _
    rw [functionKey_of_lookup hlookup, if_neg (by simp)]
    have hlong : (esc :: rest).length ≠ 1 := by
      rw [List.length_cons]
      omega
    rw [emitRead, if_neg hlong]

/-- A code of the table is decoded in every form of the grammar, unless it is one that is not matched
or its modifier number loses flags as a double. -/
theorem decodes_iff (windows : Bool) {code : Str} {entry : KeymapEntry}
    (hcode : (code, entry) ∈ keymap) {escapes : Str}
    (hescapes : escapes = [esc] ∨ escapes = [esc, esc]) {modifier : ℕ} {sequence : Str}
    (hmodifier : 1 ≤ modifier) (h : Spelling code modifier sequence) :
    Decodes windows (escapes ++ sequence) entry modifier ↔
      sequence ∉ unmatched ∧ FlagsKept entry modifier := by
  by_cases hmatched : sequence ∈ unmatched
  · have hundefined := emitKey_unmatched windows escapes (by simpa using hescapes) sequence hmatched
    refine iff_of_false ?_ fun hkept => hkept.1 hmatched
    rintro ⟨char, hdecodes⟩
    rw [hundefined] at hdecodes
    have hname : "undefined".toList = entry.name := by
      simp only [Except.ok.injEq, List.cons.injEq, Keypress.mk.injEq, Option.some.injEq] at hdecodes
      exact congrArg EmittedKey.name hdecodes.1.2
    exact (keymap_entries _ hcode).2.1 hname.symm
  · have hemit := emitKey_spelling windows hescapes hcode hmodifier h hmatched
    rw [Decodes, hemit]
    cases hless : doubleLess modifier with
    | none => simp [FlagsKept, hless]
    | some n => simp [FlagsKept, hless, hmatched]

/-- Ctrl and up, as xterm sends it. -/
theorem decodes_ctrl_up :
    Decodes false ([esc] ++ ['[', '1', ';', '5', 'A']) (unmodified "up") 5 ↔
      ['[', '1', ';', '5', 'A'] ∉ unmatched ∧ FlagsKept (unmodified "up") 5 := by
  have hcode : (['[', 'A'], unmodified "up") ∈ keymap := by decide +kernel
  have hdigits : Digits ['5'] := ⟨by simp, by simp⟩
  have hinserted : Inserted ['5'] ['[', 'A'] ['[', '1', ';', '5', 'A'] :=
    .bracketOneLetter (by decide)
  exact decodes_iff false hcode (.inl rfl) (by decide) (.modified hdigits hinserted)

/-- The page keys of putty are undefined keys. -/
theorem decodes_broken : ¬ ∀ (windows : Bool) (code : Str) (entry : KeymapEntry),
    (code, entry) ∈ keymap → ∀ escapes, escapes = [esc] ∨ escapes = [esc, esc] →
      ∀ (modifier : ℕ) (sequence : Str), 1 ≤ modifier → Spelling code modifier sequence →
        Decodes windows (escapes ++ sequence) entry modifier := by
  intro hdecodes
  obtain ⟨char, hkey⟩ := hdecodes false "[[5~".toList (unmodified "pageup") (by decide +kernel)
    [esc] (.inl rfl) 1 "[[5~".toList le_rfl .plain
  rw [emitKey_unmatched false [esc] (by simp) "[[5~".toList (by decide)] at hkey
  exact absurd (Except.ok.inj hkey) (by simp [keyOf, unmodified])

end LuaNode.Readline
