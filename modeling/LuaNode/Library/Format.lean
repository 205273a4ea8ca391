import LuaNode.Library.Text
import Mathlib.Data.List.TakeWhile

/-!
# Format strings

A format string of `string.format` in Lua 5.1 is read into pieces: characters that are copied, and items
with flags, width and precision that take an argument each. What an item makes of its argument is the
business of C and a parameter here.
-/

namespace LuaNode

inductive FormatError
  | noValue
  | badArgument
  | repeatedFlags
  | tooLong
  | invalidOption
  deriving DecidableEq

inductive Piece
  | char (c : Char)
  | item (form : Str) (conversion : Char)
  | bad (e : FormatError)
  deriving DecidableEq

/-- `[cdiouxXeEfgGqs]`. -/
def isConversion (c : Char) : Bool := "cdiouxXeEfgGqs".toList.contains c

/-- `FLAGS` of `lstrlib.c`. -/
def isFlag (c : Char) : Bool := "-+ #0".toList.contains c

/-- At most two digits, and what is behind them. -/
def twoDigits (s : Str) : Str × Str :=
  let digits := (s.take 2).takeWhile Char.isDigit
  (digits, s.drop digits.length)

/-- A point with at most two digits, if there is one, and what is behind. -/
def precision : Str → Str × Str
  | '.' :: rest => ('.' :: (twoDigits rest).1, (twoDigits rest).2)
  | rest => ([], rest)

/-- `scanformat`: the flags, the width and the precision of an item, and what is behind them. -/
def scanformat (s : Str) : Except FormatError (Str × Str) :=
  let flags := s.takeWhile isFlag
  if 6 ≤ flags.length then .error .repeatedFlags
  else
    let width := twoDigits (s.dropWhile isFlag)
    let precision := precision width.2
    if precision.2.head?.any Char.isDigit then .error .tooLong
    else .ok (flags ++ (width.1 ++ precision.1), precision.2)

/-- The pieces of a format string; the first argument counts the characters of the last item that are
still to be passed over. -/
def formatPieces : ℕ → Str → List Piece
  | _, [] => []
  | passed + 1, _ :: s => formatPieces passed s
  | 0, c :: s =>
    if c ≠ '%' then .char c :: formatPieces 0 s
    else if s.head? = some '%' then .char '%' :: formatPieces 1 s
    else
      match scanformat s with
      | .error e => [.bad e]
      | .ok (_, []) => [.bad .invalidOption]
      | .ok (form, conversion :: _) =>
        if isConversion conversion then .item form conversion :: formatPieces (form.length + 1) s
        else [.bad .invalidOption]

/-- The text of some pieces with some arguments. -/
def render {α : Type*} (convert : Str → Char → α → Option Str) : List Piece → List α → Except FormatError Str
  | [], _ => .ok []
  | .char c :: ps, args => (render convert ps args).map (c :: ·)
  | .bad e :: _, _ => .error e
  | .item _ _ :: _, [] => .error .noValue
  | .item form conversion :: ps, arg :: args =>
    match convert form conversion arg with
    | none => .error .badArgument
    | some text => (render convert ps args).map (text ++ ·)

/-- The text of some pieces where every item makes the same of its argument. -/
def renderAll (convert : Str → Char → Option Str) : List Piece → Option Str
  | [] => some []
  | .char c :: ps => (renderAll convert ps).map (c :: ·)
  | .bad _ :: _ => none
  | .item form conversion :: ps =>
    (convert form conversion).bind fun text => (renderAll convert ps).map (text ++ ·)

/-! ### Reading -/

theorem twoDigits_append (s : Str) : (twoDigits s).1 ++ (twoDigits s).2 = s := by
  have hprefix : (s.take 2).takeWhile Char.isDigit <+: s :=
    (List.takeWhile_prefix _).trans (List.take_prefix 2 s)
  exact List.prefix_iff_eq_append.mp hprefix

theorem percent_not_mem_twoDigits (s : Str) : '%' ∉ (twoDigits s).1 := by
  intro h
  have hdigit : Char.isDigit '%' = true := List.mem_takeWhile_imp h
  exact absurd hdigit (by decide)

theorem precision_append (s : Str) : (precision s).1 ++ (precision s).2 = s := by
  unfold precision
  split
  next rest => rw [List.cons_append, twoDigits_append]
  next => rfl

theorem percent_not_mem_precision (s : Str) : '%' ∉ (precision s).1 := by
  unfold precision
  split
  next rest => simp [percent_not_mem_twoDigits]
  next => simp

/-- What is read in front of the conversion has no percent sign. -/
theorem scanformat_append {s form rest : Str} (h : scanformat s = .ok (form, rest)) :
    s = form ++ rest ∧ '%' ∉ form := by
  have hflag : '%' ∉ s.takeWhile isFlag := by
    intro hmem
    have hpercent := List.mem_takeWhile_imp hmem
    exact absurd hpercent (by decide)
  have hwidth := twoDigits_append (s.dropWhile isFlag)
  have hprecision := precision_append (twoDigits (s.dropWhile isFlag)).2
  unfold scanformat at h
  simp only at h
  split_ifs at h
  obtain ⟨rfl, rfl⟩ := Prod.mk.inj (Except.ok.inj h)
  constructor
  · rw [List.append_assoc, List.append_assoc, hprecision, hwidth, List.takeWhile_append_dropWhile]
  · simp [hflag, percent_not_mem_twoDigits, percent_not_mem_precision]

theorem scanformat_conversion {c : Char} (h : isConversion c = true) (s : Str) :
    scanformat (c :: s) = .ok ([], c :: s) := by
  have hall : "cdiouxXeEfgGqs".toList.all (fun c => !isFlag c && (!c.isDigit && c ≠ '.')) = true := by
    decide
  obtain ⟨hc, hdigit, hdot⟩ : isFlag c = false ∧ c.isDigit = false ∧ c ≠ '.' := by
    have hmem : c ∈ "cdiouxXeEfgGqs".toList := List.contains_iff_mem.mp h
    simpa using List.all_eq_true.mp hall c hmem
  have htwo : twoDigits (c :: s) = ([], c :: s) := by
    simp [twoDigits, hdigit]
  have hprecision : precision (c :: s) = ([], c :: s) := by
    unfold precision
    split
    next rest heq => exact absurd (List.cons_eq_cons.mp heq).1 hdot
    next => rfl
  simp [scanformat, hc, htwo, hprecision, hdigit]

theorem formatPieces_passed (passed : ℕ) (s : Str) :
    formatPieces passed s = formatPieces 0 (s.drop passed) := by
  induction s generalizing passed with
  | nil => simp [formatPieces]
  | cons c s ih =>
    cases passed with
    | zero => rfl
    | succ passed => rw [formatPieces, ih, List.drop_succ_cons]

theorem formatPieces_char {c : Char} (h : c ≠ '%') (s : Str) :
    formatPieces 0 (c :: s) = .char c :: formatPieces 0 s := by
  rw [formatPieces, if_pos h]

theorem formatPieces_percent (s : Str) :
    formatPieces 0 ('%' :: '%' :: s) = .char '%' :: formatPieces 0 s := by
  have hhead : ('%' :: s).head? = some '%' := rfl
  rw [formatPieces, if_neg (by simp), if_pos hhead]
  rfl

theorem formatPieces_conversion {c : Char} (h : isConversion c = true) (s : Str) :
    formatPieces 0 ('%' :: c :: s) = .item [] c :: formatPieces 0 s := by
  have hne : c ≠ '%' := by
    rintro rfl
    exact absurd h (by decide)
  rw [formatPieces, if_neg (by simp), if_neg (by simpa using hne), scanformat_conversion h]
  simp only
  rw [if_pos h]
  rfl

/-- A percent sign in front of something else begins an item or is an error. -/
theorem formatPieces_item {s : Str} (h : s.head? ≠ some '%') :
    (∃ e, formatPieces 0 ('%' :: s) = [.bad e]) ∨
      ∃ form conversion rest, s = form ++ conversion :: rest ∧ '%' ∉ form ∧
        isConversion conversion = true ∧
        formatPieces 0 ('%' :: s) = .item form conversion :: formatPieces 0 rest := by
  rw [formatPieces, if_neg (by simp), if_neg h]
  match hscan : scanformat s with
  | .error e => exact .inl ⟨e, rfl⟩
  | .ok (form, []) => exact .inl ⟨_, rfl⟩
  | .ok (form, conversion :: rest) =>
    simp only
    split_ifs with hconversion
    · obtain ⟨hs, hform⟩ := scanformat_append hscan
      refine .inr ⟨form, conversion, rest, hs, hform, hconversion, ?_⟩
      have hdrop : s.drop (form.length + 1) = rest := by
        rw [hs, List.drop_append]
        simp
      rw [formatPieces_passed, hdrop]
    · exact .inl ⟨_, rfl⟩

/-! ### Rendering -/

theorem toOption_map {ε α β : Type*} (f : α → β) (r : Except ε α) :
    (r.map f).toOption = r.toOption.map f := by
  cases r <;> rfl

/-- Enough equal arguments make the same of every item. -/
theorem render_replicate {α : Type*} (convert : Str → Char → α → Option Str) (arg : α) {ps : List Piece}
    {n : ℕ} (h : ps.length ≤ n) :
    (render convert ps (List.replicate n arg)).toOption =
      renderAll (fun form conversion => convert form conversion arg) ps := by
  induction ps generalizing n with
  | nil => simp [render, renderAll, Except.toOption]
  | cons piece ps ih =>
    have hn : ps.length + 1 ≤ n := h
    cases piece with
    | char c =>
      rw [render, renderAll, toOption_map, ih (by omega)]
    | bad e => rw [render, renderAll, Except.toOption]
    | item form conversion =>
      obtain ⟨m, rfl⟩ : ∃ m, n = m + 1 := ⟨n - 1, by omega⟩
      rw [List.replicate_succ, render, renderAll]
      cases convert form conversion arg with
      | none => rfl
      | some text =>
        simp only
        rw [toOption_map, ih (by omega)]
        rfl

end LuaNode
