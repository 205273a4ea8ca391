import LuaNode.Library.Double
import LuaNode.Library.Substring
import Mathlib.Data.List.TakeWhile

/-!
# Keys

`emitKey` of `readline.lua`: what a string read from the terminal is as keypresses. The fields `sequence` and
`code` of a key, which nobody reads, are left out. A string of several bytes whose first one is a
control character is compared with Ctrl-Z as a whole and becomes one key; others are cut into their
bytes.
-/

namespace LuaNode.Readline

def esc : Char := Char.ofNat 27

def bs : Char := Char.ofNat 8

def del : Char := Char.ofNat 127

/-- Ctrl-Z, `"\\026"`. -/
def sub26 : Char := Char.ofNat 26

structure KeymapEntry where
  name : Str
  shift : Bool
  ctrl : Bool
  deriving DecidableEq

def unmodified (name : String) : KeymapEntry := ⟨name.toList, false, false⟩

def shifted (name : String) : KeymapEntry := ⟨name.toList, true, false⟩

def controlled (name : String) : KeymapEntry := ⟨name.toList, false, true⟩

def keymap : List (Str × KeymapEntry) := [
    -- xterm/gnome ESC O letter
    ("OP", unmodified "f1"), ("OQ", unmodified "f2"), ("OR", unmodified "f3"),
    ("OS", unmodified "f4"),
    -- xterm/rxvt ESC [ number ~
    ("[11~", unmodified "f1"), ("[12~", unmodified "f2"), ("[13~", unmodified "f3"),
    ("[14~", unmodified "f4"),
    -- from Cygwin and used in libuv
    ("[[A", unmodified "f1"), ("[[B", unmodified "f2"), ("[[C", unmodified "f3"),
    ("[[D", unmodified "f4"), ("[[E", unmodified "f5"),
    -- common
    ("[15~", unmodified "f5"), ("[17~", unmodified "f6"), ("[18~", unmodified "f7"),
    ("[19~", unmodified "f8"), ("[20~", unmodified "f9"), ("[21~", unmodified "f10"),
    ("[23~", unmodified "f11"), ("[24~", unmodified "f12"),
    -- xterm ESC [ letter
    ("[A", unmodified "up"), ("[B", unmodified "down"), ("[C", unmodified "right"),
    ("[D", unmodified "left"), ("[E", unmodified "clear"), ("[F", unmodified "end"),
    ("[H", unmodified "home"),
    -- xterm/gnome ESC O letter
    ("OA", unmodified "up"), ("OB", unmodified "down"), ("OC", unmodified "right"),
    ("OD", unmodified "left"), ("OE", unmodified "clear"), ("OF", unmodified "end"),
    ("OH", unmodified "home"),
    -- xterm/rxvt ESC [ number ~
    ("[1~", unmodified "home"), ("[2~", unmodified "insert"), ("[3~", unmodified "delete"),
    ("[4~", unmodified "end"), ("[5~", unmodified "pageup"), ("[6~", unmodified "pagedown"),
    -- putty
    ("[[5~", unmodified "pageup"), ("[[6~", unmodified "pagedown"),
    -- rxvt
    ("[7~", unmodified "home"), ("[8~", unmodified "end"),
    -- rxvt keys with modifiers
    ("[a", shifted "up"), ("[b", shifted "down"), ("[c", shifted "right"), ("[d", shifted "left"),
    ("[e", shifted "clear"),
    ("[2$", shifted "insert"), ("[3$", shifted "delete"), ("[5$", shifted "pageup"),
    ("[6$", shifted "pagedown"), ("[7$", shifted "home"), ("[8$", shifted "end"),
    ("Oa", controlled "up"), ("Ob", controlled "down"), ("Oc", controlled "right"),
    ("Od", controlled "left"), ("Oe", controlled "clear"),
    ("[2^", controlled "insert"), ("[3^", controlled "delete"), ("[5^", controlled "pageup"),
    ("[6^", controlled "pagedown"), ("[7^", controlled "home"), ("[8^", controlled "end"),
    -- misc.
    ("[Z", shifted "tab")].map fun p => (p.1.toList, p.2)

/-! ### The patterns -/

/-- `(%a)`. -/
def letterOf : Str → Option Char
  | c :: _ => if c.isAlpha then some c else none
  | [] => none

/-- `([~$^])`. -/
def charOf : Str → Option Char
  | c :: _ => if c = '~' ∨ c = '$' ∨ c = '^' then some c else none
  | [] => none

/-- `(%d+)`, and what is behind it. -/
def digitsOf (s : Str) : Option (Str × Str) :=
  if s.takeWhile Char.isDigit = [] then none
  else some (s.takeWhile Char.isDigit, s.dropWhile Char.isDigit)

/-- `(%d+)(%a)`. -/
def digitsLetter (s : Str) : Option (Str × Char) := do
  let (digits, rest) ← digitsOf s
  let letter ← letterOf rest
  some (digits, letter)

/-- `1;(%d+)(%a)`. -/
def oneDigitsLetter : Str → Option (Str × Char)
  | '1' :: ';' :: rest => digitsLetter rest
  | _ => none

/-- `(%d+)([~$^])`. -/
def digitsChar (s : Str) : Option (Str × Char) := do
  let (digits, rest) ← digitsOf s
  let char ← charOf rest
  some (digits, char)

/-- `(%d+);(%d+)([~$^])`. -/
def digitsDigitsChar (s : Str) : Option (Str × Str × Char) := do
  let (num, rest) ← digitsOf s
  match rest with
  | ';' :: rest =>
    let (modifier, char) ← digitsChar rest
    some (num, modifier, char)
  | _ => none

/-- `s:match("^([\\027]+)(.+)")`, of which only the second part is used. -/
def behindEscapes (s : Str) : Option Str :=
  match s.takeWhile (· = esc), s.dropWhile (· = esc) with
  | [], _ => none
  | _ :: _, c :: rest => some (c :: rest)
  | _ :: escapes, [] => if escapes = [] then none else some [esc]

/-- The captured parts of a code. -/
structure CodeParts where
  pre : Str
  letter : Str := []
  num : Str := []
  char : Str := []
  modifier : Option Str := none

def partsOfO (rest : Str) : CodeParts :=
  match letterOf rest with
  | some letter => { pre := ['O'], letter := [letter] }
  | none =>
    match digitsLetter rest with
    | some (modifier, letter) => { pre := ['O'], letter := [letter], modifier := some modifier }
    | none =>
      match oneDigitsLetter rest with
      | some (modifier, letter) => { pre := ['O'], letter := [letter], modifier := some modifier }
      | none => { pre := ['O'] }

def partsOfDouble (rest : Str) : CodeParts :=
  match digitsDigitsChar rest with
  | some (num, modifier, char) =>
    { pre := ['[', '['], num, char := [char], modifier := some modifier }
  | none =>
    match oneDigitsLetter rest with
    | some (modifier, letter) =>
      { pre := ['[', '['], letter := [letter], modifier := some modifier }
    | none =>
      match letterOf rest with
      | some letter => { pre := ['[', '['], letter := [letter] }
      | none => { pre := ['[', '['] }

def partsOfBracket (rest : Str) : CodeParts :=
  match letterOf rest with
  | some letter => { pre := ['['], letter := [letter] }
  | none =>
    match digitsChar rest with
    | some (num, char) => { pre := ['['], num, char := [char] }
    | none =>
      match oneDigitsLetter rest with
      | some (modifier, letter) => { pre := ['['], letter := [letter], modifier := some modifier }
      | none =>
        match digitsLetter rest with
        | some (modifier, letter) =>
          { pre := ['['], letter := [letter], modifier := some modifier }
        | none =>
          match digitsDigitsChar rest with
          | some (num, modifier, char) =>
            { pre := ['['], num, char := [char], modifier := some modifier }
          | none => { pre := ['['] }

def partsOf : Str → CodeParts
  | 'N' :: rest => { pre := ['N'], letter := (letterOf rest).toList }
  | 'O' :: rest => partsOfO rest
  | '[' :: '[' :: rest => partsOfDouble rest
  | '[' :: rest => partsOfBracket rest
  | rest => { pre := rest.take 1, letter := rest }

/-- `(tonumber(modifier) or 1) - 1`, or `none` for infinity. -/
def lessOne : Option Str → Option ℤ
  | none => some 0
  | some digits =>
    match toDouble (Nat.ofDigitChars 10 digits 0) with
    | none => none
    | some 0 => some (-1)
    | some (n + 1) => (toDouble n).map Int.ofNat

def parseFunctionKeyCode (s : Str) : Str × Option ℤ :=
  match behindEscapes s with
  | none => ([], some 0)
  | some rest =>
    let parts := partsOf rest
    (parts.pre ++ parts.letter ++ parts.num ++ parts.char, lessOne parts.modifier)

/-! ### Bits -/

/-- `bit.bxor`, one hexadecimal digit after the other. Its table is that of the exclusive or, and the sums
are exact; where doubles round them, beyond `2 ^ 53`, the zeros of `bit.band` are the same. -/
def bxor (a b : ℤ) : ℤ :=
  if 0 < a ∧ 0 < b then
    ((a % 16).toNat ^^^ (b % 16).toNat : ℕ) + 16 * bxor (a / 16) (b / 16)
  else a + b
termination_by a.toNat
decreasing_by omega

def band (a b : ℤ) : ℤ := (a + b - bxor a b) / 2

/-! ### Keypresses -/

structure EmittedKey where
  name : Str
  ctrl : Bool
  isMeta : Bool
  shift : Bool
  deriving DecidableEq

structure Keypress where
  char : Option Str
  key : Option EmittedKey
  deriving DecidableEq

/-- What `emitKey` makes of a string. -/
inductive Reading
  | key (key : EmittedKey)
  | noKey
  /-- it is called for each byte -/
  | each
  | raises (message : Str)
  deriving DecidableEq

/-- A function key. Infinity is no index into the table of `bit.bxor`. -/
def functionKey (code : Str) : Option ℤ → Reading
  | none => .raises "attempt to index field '?' (a nil value)".toList
  | some modifier =>
    let entry := (keymap.lookup code).getD (unmodified "undefined")
    .key {
      name := entry.name
      ctrl := entry.ctrl || band modifier 4 ≠ 0
      isMeta := band modifier 10 ≠ 0
      shift := entry.shift || band modifier 1 ≠ 0 }

/-- `s:match("^\\027(%a)$")`. -/
def metaLetter : Str → Option Char
  | [c, letter] => if c = esc ∧ letter.isAlpha then some letter else none
  | _ => none

def readKey (windows : Bool) (s : Str) : Reading :=
  if s = ['\r'] ∨ s = ['\n'] then .key ⟨"enter".toList, false, false, false⟩
  else if s = ['\t'] then .key ⟨"tab".toList, false, false, false⟩
  else if s = [bs] ∨ s = [del] ∨ s = [esc, del] ∨ s = [esc, bs] then
    .key ⟨"backspace".toList, windows && s.head? = some del, s.head? = some esc, false⟩
  else if s = [esc] ∨ s = [esc, esc] then .key ⟨"escape".toList, false, s.length = 2, false⟩
  else if s = [' '] ∨ s = [esc, ' '] then .key ⟨"space".toList, false, s.length = 2, false⟩
  else if bytesLe s [sub26] then
    match s with
    | [] => .raises "attempt to perform arithmetic on a nil value".toList
    | c :: _ => .key ⟨[Char.ofNat (c.toNat + 'a'.toNat - 1)], true, false, false⟩
  else if s.length = 1 ∧ bytesLe ['a'] s ∧ bytesLe s ['z'] then .key ⟨s, false, false, false⟩
  else if s.length = 1 ∧ bytesLe ['A'] s ∧ bytesLe s ['Z'] then .key ⟨lower s, false, false, true⟩
  else
    match metaLetter s with
    | some letter =>
      .key ⟨lower [letter], false, true, bytesLe ['A'] [letter] && bytesLe [letter] ['Z']⟩
    | none =>
      let (code, modifier) := parseFunctionKeyCode s
      if code ≠ [] then functionKey code modifier
      else if 1 < s.length ∧ s.head? ≠ some esc then .each
      else .noKey

/-- The keypress of a string that is not cut. -/
def emitRead (s : Str) : Reading → Except Str (List Keypress)
  | .key key => .ok [⟨if s.length = 1 then some s else none, some key⟩]
  | .noKey | .each => .ok (if s.length = 1 then [⟨some s, none⟩] else [])
  | .raises message => .error message

/-- `emitKey` for each byte in turn. -/
def emitBytes (windows : Bool) (s : Str) : Except Str (List Keypress) :=
  (s.mapM fun c => emitRead [c] (readKey windows [c])).map List.flatten

def emitKey (windows : Bool) (s : Str) : Except Str (List Keypress) :=
  if readKey windows s = .each then emitBytes windows s else emitRead s (readKey windows s)

/-! ### One byte -/

/-- Without an ESC in front there is no code. -/
theorem parseFunctionKeyCode_of_ne {c : Char} (hc : c ≠ esc) (rest : Str) :
    parseFunctionKeyCode (c :: rest) = ([], some 0) := by
  have hnone : behindEscapes (c :: rest) = none := by
    simp [behindEscapes, hc]
  rw [parseFunctionKeyCode, hnone]

/-- One keypress at most, without an error. -/
def Reading.Uncut (reading : Reading) : Prop := reading = .noKey ∨ ∃ key, reading = .key key

theorem Reading.uncut_key (key : EmittedKey) : (Reading.key key).Uncut := .inr ⟨key, rfl⟩

/-- One more string tried first. -/
theorem Reading.Uncut.orElse {reading : Reading} (h : reading.Uncut) (p : Prop) [Decidable p]
    (key : EmittedKey) : Reading.Uncut (if p then .key key else reading) := by
  by_cases hp : p
  · rw [if_pos hp]
    exact uncut_key key
  · rw [if_neg hp]
    exact h

theorem readKey_byte (windows : Bool) (c : Char) : (readKey windows [c]).Uncut := by
  by_cases hesc : c = esc
  · subst hesc
    have hread : readKey windows [esc] = .key ⟨"escape".toList, false, false, false⟩ := by
      cases windows <;> decide
    rw [hread]
    exact Reading.uncut_key _
  · have hcode := parseFunctionKeyCode_of_ne hesc []
    have hmeta : metaLetter [c] = none := rfl
    have hlast : Reading.Uncut .noKey := .inl rfl
    unfold readKey
    rw [hmeta, hcode]
    exact .orElse (.orElse (.orElse (.orElse (.orElse (.orElse (.orElse (.orElse hlast _ _)
      _ _) _ _) _ _) _ _) _ _) _ _) _ _

theorem emitKey_byte (windows : Bool) (c : Char) :
    ∃ keypress, emitKey windows [c] = .ok [keypress] ∧
      emitRead [c] (readKey windows [c]) = .ok [keypress] := by
  unfold emitKey
  rcases readKey_byte windows c with hread | ⟨key, hread⟩
  · rw [hread]
    exact ⟨⟨some [c], none⟩, rfl, rfl⟩
  · rw [hread]
    exact ⟨⟨some [c], some key⟩, rfl, rfl⟩

/-- The calls for the bytes are calls of `emitKey`. -/
theorem emitBytes_eq (windows : Bool) (s : Str) :
    emitBytes windows s = (s.mapM fun c => emitKey windows [c]).map List.flatten := by
  have hbyte : (fun c => emitRead [c] (readKey windows [c])) = fun c => emitKey windows [c] := by
    funext c
    obtain ⟨keypress, hkey, hread⟩ := emitKey_byte windows c
    rw [hkey, hread]
  rw [emitBytes, hbyte]

/-- As many keypresses as bytes. -/
theorem emitBytes_length (windows : Bool) (s : Str) :
    ∃ keypresses, emitBytes windows s = .ok keypresses ∧ keypresses.length = s.length := by
  induction s with
  | nil => exact ⟨[], rfl, rfl⟩
  | cons c s ih =>
    obtain ⟨rest, hrest, hlength⟩ := ih
    obtain ⟨keypress, -, hread⟩ := emitKey_byte windows c
    refine ⟨keypress :: rest, ?_, by rw [List.length_cons, List.length_cons, hlength]⟩
    unfold emitBytes at hrest ⊢
    cases hparts : s.mapM fun c => emitRead [c] (readKey windows [c]) with
    | error message => simp [hparts, Except.map] at hrest
    | ok parts =>
      rw [hparts] at hrest
      have hflat : parts.flatten = rest := by simpa [Except.map] using hrest
      rw [List.mapM_cons, hread, hparts, ← hflat]
      rfl

/-! ### Bytes that arrive together -/

/-- A longer string without ESC is a key of its own when its first byte is below Ctrl-Z. -/
theorem readKey_together (windows : Bool) {c d : Char} {rest : Str} (h : esc ∉ c :: d :: rest) :
    readKey windows (c :: d :: rest) = if c.toNat < 26
      then .key ⟨[Char.ofNat (c.toNat + 'a'.toNat - 1)], true, false, false⟩ else .each := by
  obtain ⟨hc, hrest⟩ : esc ≠ c ∧ esc ∉ d :: rest := by simpa using h
  have hle : bytesLe (c :: d :: rest) [sub26] = true ↔ c.toNat < 26 := by
    have hcode : sub26.toNat = 26 := by decide
    simp [bytesLe, hcode]
  have hparse := parseFunctionKeyCode_of_ne (Ne.symm hc) (d :: rest)
  have hmeta : metaLetter (c :: d :: rest) = none := by
    cases rest <;> simp [metaLetter, Ne.symm hc]
  by_cases hbelow : c.toNat < 26
  · simp [readKey, hle, hbelow, Ne.symm hc]
  · simp [readKey, hle, hbelow, Ne.symm hc, hmeta, hparse]

/-- A string without ESC is the keys of its bytes exactly when it is one byte, or its first byte is
Ctrl-Z or greater. -/
theorem emitKey_together_iff (windows : Bool) (s : Str) (h : esc ∉ s) :
    emitKey windows s = (s.mapM fun c => emitKey windows [c]).map List.flatten ↔
      s.length = 1 ∨ ∃ c ∈ s.head?, 26 ≤ c.toNat := by
  rw [← emitBytes_eq]
  obtain ⟨keypresses, hbytes, hlength⟩ := emitBytes_length windows s
  cases s with
  | nil =>
    refine iff_of_false ?_ (by simp)
    rw [hbytes]
    simp [emitKey, readKey, bytesLe, emitRead]
  | cons c s =>
    cases s with
    | nil =>
      obtain ⟨keypress, hkey, hread⟩ := emitKey_byte windows c
      refine iff_of_true ?_ (.inl rfl)
      rw [hkey]
      simp [emitBytes, hread, Except.map]
    | cons d rest =>
      have hread := readKey_together windows h
      by_cases hbelow : c.toNat < 26
      · rw [if_pos hbelow] at hread
        refine iff_of_false ?_ (by simp [hbelow])
        rw [hbytes, emitKey, hread, if_neg (by simp), emitRead]
        intro hsame
        have hone := congrArg List.length (Except.ok.inj hsame)
        rw [hlength] at hone
        simp at hone
      · rw [if_neg hbelow] at hread
        refine iff_of_true ?_ (.inr ⟨c, rfl, by omega⟩)
        rw [emitKey, hread, if_pos rfl]

theorem emitKey_together_letters :
    emitKey false ['a', 'b'] = (['a', 'b'].mapM fun c => emitKey false [c]).map List.flatten ↔
      ['a', 'b'].length = 1 ∨ ∃ c ∈ ['a', 'b'].head?, 26 ≤ c.toNat :=
  emitKey_together_iff false ['a', 'b'] (by decide)

/-- Ctrl-A and a letter in one chunk are one key. -/
theorem emitKey_together_broken : ¬ ∀ (windows : Bool) (s : Str), esc ∉ s →
    emitKey windows s = (s.mapM fun c => emitKey windows [c]).map List.flatten := by
  intro hsame
  have htwo := hsame false [Char.ofNat 1, 'a'] (by decide)
  exact absurd htwo (by decide)

end LuaNode.Readline
