import LuaNode.Console.Escaping

/-!
# Log messages

`BuildMessage` escapes the percent signs of a format string that begin no specifier, two characters at
a time, and hands the result to `string.format`. What a format string should print is said by `printed`;
it is printed exactly when no two percent signs stand next to each other and none at the end, but for
three of them there.
-/

namespace LuaNode.Console

/-- What the messages ask of Lua values. -/
structure Values (α : Type) where
  /-- the string that a value is -/
  string : α → Option Str
  /-- a string or a number, as `table.concat` writes it -/
  text : α → Option Str
  tostring : α → Except Str α
  /-- an item of `string.format` -/
  convert : Str → Char → α → Option Str
  text_string : ∀ {v s}, string v = some s → text v = some s
  string_tostring : ∀ {v w}, tostring v = .ok w → (string w).isSome

inductive MessageError
  | raised (e : Str)
  | format (e : FormatError)

namespace Values

variable {α : Type} (L : Values α)

/-- An argument that is neither a string nor a number is replaced. -/
def toText (arg : α) : Except MessageError α :=
  if (L.text arg).isSome then .ok arg else (L.tostring arg).mapError .raised

def logArgumentsFormatter (args : List α) : Except MessageError (List α) := args.mapM L.toText

def argumentsToStrings (t args : List α) : Except MessageError (List α) :=
  (args.mapM L.toText).map fun strings => t ++ strings

/-- `table.concat(msg, "\t")`. -/
def concat (msg : List α) : Str := ['\t'].intercalate (msg.map fun v => (L.text v).getD [])

def buildMessage (fmt : α) (args : List α) : Except MessageError Str :=
  match L.string fmt with
  | none => do
    let first ← (L.tostring fmt).mapError .raised
    let msg ← L.argumentsToStrings [first] args
    return L.concat msg
  | some s =>
    if '%' ∈ s then do
      let args ← L.logArgumentsFormatter args
      (render L.convert (formatPieces 0 (escapeUnrecognized s)) args).mapError .format
    else do
      let t ← L.argumentsToStrings [fmt] args
      return L.concat t

end Values

/-! ### What should be printed -/

namespace Values

variable {α : Type} (L : Values α)

def Printable (arg : α) : Prop := ∃ v, L.toText arg = .ok v

/-- The text of an argument, with what `convert` makes of it in a specifier. -/
def convertArg (form : Str) (conversion : Char) (arg : α) : Option Str :=
  (L.toText arg).toOption.bind (L.convert form conversion)

def argText (arg : α) : Str := ((L.toText arg).toOption.bind L.text).getD []

/-- The text of a format string with its arguments, if every specifier has one that it can take. -/
def expected (s : Str) (args : List α) : Option Str :=
  (render L.convertArg (printed s) args).toOption

def Acceptable (s : Str) (args : List α) : Prop := (L.expected s args).isSome

/-- The message is the text of the format string; behind a string without percent signs the arguments
stand. -/
def PrintsRight (fmt : α) (s : Str) (args : List α) : Prop :=
  ∃ text, L.expected s args = some text ∧
    L.buildMessage fmt args =
      .ok (['\t'].intercalate (text :: if '%' ∈ s then [] else args.map L.argText))

/-! ### The arguments -/

theorem mapM_toText_cons {arg : α} {args vs : List α} :
    (arg :: args).mapM L.toText = .ok vs ↔
      ∃ v rest, L.toText arg = .ok v ∧ args.mapM L.toText = .ok rest ∧ vs = v :: rest := by
  rw [List.mapM_cons]
  cases hv : L.toText arg with
  | error e => simp [bind, Except.bind]
  | ok v =>
    cases hrest : args.mapM L.toText with
    | error e => simp [bind, Except.bind]
    | ok rest => simp [bind, Except.bind, pure, Except.pure, eq_comm]

/-- All arguments have a text, or the first that has none raises its error. -/
theorem exists_mapM_toText_iff (args : List α) :
    (∃ vs, args.mapM L.toText = .ok vs) ↔ ∀ arg ∈ args, L.Printable arg := by
  induction args with
  | nil => simp [pure, Except.pure]
  | cons arg args ih =>
    rw [List.forall_mem_cons, ← ih]
    constructor
    · rintro ⟨vs, hvs⟩
      obtain ⟨v, rest, hv, hrest, -⟩ := (L.mapM_toText_cons).mp hvs
      exact ⟨⟨v, hv⟩, rest, hrest⟩
    · rintro ⟨⟨v, hv⟩, rest, hrest⟩
      exact ⟨v :: rest, (L.mapM_toText_cons).mpr ⟨v, rest, hv, hrest, rfl⟩⟩

variable {L}

theorem concat_mapM_toText {args vs : List α} (h : args.mapM L.toText = .ok vs) :
    vs.map (fun v => (L.text v).getD []) = args.map L.argText := by
  induction args generalizing vs with
  | nil =>
    obtain rfl : [] = vs := Except.ok.inj h
    rfl
  | cons arg args ih =>
    obtain ⟨v, rest, hv, hrest, rfl⟩ := (L.mapM_toText_cons).mp h
    have harg : L.argText arg = (L.text v).getD [] := by
      rw [argText, hv]
      rfl
    rw [List.map_cons, List.map_cons, ih hrest, harg]

/-- The texts can be taken from the arguments one at a time. -/
theorem render_mapM_toText (ps : List Piece) {args vs : List α} (h : args.mapM L.toText = .ok vs) :
    render L.convert ps vs = render L.convertArg ps args := by
  induction ps generalizing args vs with
  | nil => rw [render, render]
  | cons piece ps ih =>
    cases piece with
    | char c => rw [render, render, ih h]
    | bad e => rw [render, render]
    | item form conversion =>
      cases args with
      | nil =>
        obtain rfl : [] = vs := Except.ok.inj h
        rw [render, render]
      | cons arg args =>
        obtain ⟨v, rest, hv, hrest, rfl⟩ := (L.mapM_toText_cons).mp h
        have hconvert : L.convertArg form conversion arg = L.convert form conversion v := by
          rw [convertArg, hv]
          rfl
        rw [render, render, hconvert, ih hrest]

/-! ### The two kinds of format strings -/

theorem render_printed_of_not_mem {s : Str} (h : '%' ∉ s) (args : List α) :
    render L.convertArg (printed s) args = .ok s := by
  induction s with
  | nil => rfl
  | cons c s ih =>
    obtain ⟨hc, hs⟩ : '%' ≠ c ∧ '%' ∉ s := by simpa using h
    rw [printed_char (Ne.symm hc), render, ih hs]
    rfl

/-- Nothing is formatted, and the arguments stand behind the string. -/
theorem buildMessage_of_not_mem {fmt : α} {s : Str} (hs : L.string fmt = some s) (h : '%' ∉ s)
    {args vs : List α} (hvs : args.mapM L.toText = .ok vs) :
    L.buildMessage fmt args = .ok (['\t'].intercalate (s :: args.map L.argText)) := by
  have hconcat : L.concat (fmt :: vs) = ['\t'].intercalate (s :: args.map L.argText) := by
    rw [concat, List.map_cons, L.text_string hs, concat_mapM_toText hvs]
    rfl
  simp only [buildMessage, hs, if_neg h, argumentsToStrings, hvs]
  exact congrArg Except.ok hconcat

theorem buildMessage_of_mem {fmt : α} {s : Str} (hs : L.string fmt = some s) (h : '%' ∈ s)
    {args vs : List α} (hvs : args.mapM L.toText = .ok vs) :
    L.buildMessage fmt args =
      (render L.convert (formatPieces 0 (escapeUnrecognized s)) vs).mapError .format := by
  simp only [buildMessage, hs, if_pos h, logArgumentsFormatter, hvs]
  rfl

/-- An argument without a text is an error. -/
theorem printable_of_buildMessage {fmt : α} {s message : Str} (hs : L.string fmt = some s)
    {args : List α} (h : L.buildMessage fmt args = .ok message) : ∀ arg ∈ args, L.Printable arg := by
  rw [← L.exists_mapM_toText_iff]
  cases hvs : args.mapM L.toText with
  | ok vs => exact ⟨vs, rfl⟩
  | error e =>
    simp only [buildMessage, hs, logArgumentsFormatter, argumentsToStrings, hvs] at h
    split_ifs at h <;> cases h

theorem printsRight_of_fits {fmt : α} {s : Str} (hs : L.string fmt = some s) (hfits : Fits s)
    {args : List α} (haccept : L.Acceptable s args) (hprint : ∀ arg ∈ args, L.Printable arg) :
    L.PrintsRight fmt s args := by
  obtain ⟨text, htext⟩ := Option.isSome_iff_exists.mp haccept
  obtain ⟨vs, hvs⟩ := (L.exists_mapM_toText_iff args).mpr hprint
  refine ⟨text, htext, ?_⟩
  by_cases h : '%' ∈ s
  · have hrender : render L.convertArg (printed s) args = .ok text := by
      rw [expected] at htext
      cases hr : render L.convertArg (printed s) args with
      | error e =>
        rw [hr] at htext
        cases htext
      | ok t =>
        rw [hr] at htext
        rw [← Option.some.inj htext]
    rw [buildMessage_of_mem hs h hvs, formatPieces_escape hfits, render_mapM_toText _ hvs, hrender, if_pos h,
      List.intercalate_singleton]
    rfl
  · have hsame : s = text := by
      rw [expected, render_printed_of_not_mem h] at htext
      exact Option.some.inj htext
    rw [buildMessage_of_not_mem hs h hvs, if_neg h, hsame]

/-! ### The same argument for every item -/

section Replicate

variable {one : α} (hone : (L.text one).isSome = true)

include hone

theorem mapM_toText_replicate (n : ℕ) :
    (List.replicate n one).mapM L.toText = .ok (List.replicate n one) := by
  induction n with
  | zero => rfl
  | succ n ih =>
    rw [List.replicate_succ]
    exact (L.mapM_toText_cons).mpr ⟨one, _, if_pos hone, ih, rfl⟩

theorem expected_replicate {s : Str} {n : ℕ} (hn : (printed s).length ≤ n) :
    L.expected s (List.replicate n one) =
      printedText (fun form conversion => L.convert form conversion one) s := by
  rw [expected, ← render_mapM_toText _ (mapM_toText_replicate hone n), render_replicate _ _ hn]
  rfl

theorem codeText_of_buildMessage {fmt : α} {s text : Str} (hs : L.string fmt = some s) (h : '%' ∈ s)
    {n : ℕ} (hn : (formatPieces 0 (escapeUnrecognized s)).length ≤ n)
    (hmessage : L.buildMessage fmt (List.replicate n one) = .ok text) :
    codeText (fun form conversion => L.convert form conversion one) s = some text := by
  rw [buildMessage_of_mem hs h (mapM_toText_replicate hone n)] at hmessage
  rw [codeText, ← render_replicate _ _ hn]
  cases hr : render L.convert (formatPieces 0 (escapeUnrecognized s)) (List.replicate n one) with
  | error e =>
    rw [hr] at hmessage
    cases hmessage
  | ok t =>
    rw [hr] at hmessage
    exact congrArg some (Except.ok.inj hmessage)

end Replicate

/-! ### Every format string -/

/-- A format string is printed as it should be, with whatever arguments that have texts and of which its
specifiers can take theirs, exactly when it fits. -/
theorem buildMessage_right_iff (L : Values α) {one : α} (hone : (L.text one).isSome = true)
    (htelling : Telling fun form conversion => L.convert form conversion one) {fmt : α} {s : Str}
    (hs : L.string fmt = some s) :
    (∀ args, L.Acceptable s args → (L.PrintsRight fmt s args ↔ ∀ arg ∈ args, L.Printable arg)) ↔
      Fits s := by
  constructor
  · intro hright
    by_cases h : '%' ∈ s
    · -- as many times the one argument as any of the two readings can take
      let n := (formatPieces 0 (escapeUnrecognized s)).length + (printed s).length
      have hprinted : (printed s).length ≤ n := Nat.le_add_left _ _
      have hexpected := expected_replicate hone hprinted
      have haccept : L.Acceptable s (List.replicate n one) := by
        rw [Acceptable, hexpected]
        exact printedText_isSome htelling s
      have hprint : ∀ arg ∈ List.replicate n one, L.Printable arg :=
        (L.exists_mapM_toText_iff _).mp ⟨_, mapM_toText_replicate hone n⟩
      obtain ⟨text, htext, hmessage⟩ := (hright _ haccept).mpr hprint
      rw [if_pos h, List.intercalate_singleton] at hmessage
      have hcode := codeText_of_buildMessage hone hs h (Nat.le_add_right _ _) hmessage
      exact fits_of_codeText_eq htelling hcode (hexpected ▸ htext)
    · exact fits_of_not_mem h
  · intro hfits args haccept
    constructor
    · rintro ⟨text, -, hmessage⟩
      exact printable_of_buildMessage hs hmessage
    · exact printsRight_of_fits hs hfits haccept

/-- Values that are all strings, and what `string.format` makes of `1` and of strings. -/
def strings : Values Str where
  string := some
  text := some
  tostring := .ok
  convert form conversion s :=
    if form ≠ [] then none
    else if s = ['1'] then
      match conversion with
      | 'c' => some ['\x01']
      | 'e' => some "1.000000e+00".toList
      | 'E' => some "1.000000E+00".toList
      | 'f' => some "1.000000".toList
      | 'q' => some "\"1\"".toList
      | _ => some ['1']
    else if conversion = 's' then some s
    else none
  text_string := id
  string_tostring := fun _ => rfl

theorem telling_strings : Telling fun form conversion => strings.convert form conversion ['1'] := by
  have hall : "cdiouxXeEfgGqs".toList.all (fun c => (strings.convert [] c ['1']).any fun text =>
      text ≠ [] && text.getLast? ≠ some '%' && text.getLast? ≠ some c) = true := by decide
  have htext : ∀ {c : Char}, isConversion c = true → ∃ text, strings.convert [] c ['1'] = some text ∧
      text ≠ [] ∧ text.getLast? ≠ some '%' ∧ text.getLast? ≠ some c := by
    intro c hc
    have hmem : c ∈ "cdiouxXeEfgGqs".toList := List.contains_iff_mem.mp hc
    have hany := List.all_eq_true.mp hall c hmem
    cases htext : strings.convert [] c ['1'] with
    | none =>
      rw [htext] at hany
      cases hany
    | some text =>
      rw [htext] at hany
      exact ⟨text, rfl, by simpa [and_assoc] using hany⟩
  constructor
  · intro c hc
    obtain ⟨text, heq, hne, hpercent, -⟩ := htext hc
    exact ⟨text, heq, hne, hpercent⟩
  · intro form c text hc heq
    obtain ⟨text', heq', -, -, hletter⟩ := htext hc
    by_cases hform : form = []
    · rw [hform, heq'] at heq
      exact Option.some.inj heq ▸ hletter
    · have hnone : strings.convert form c ['1'] = none := if_pos hform
      rw [hnone] at heq
      cases heq

theorem buildMessage_right_one :
    strings.PrintsRight ['n', '=', '%', 'd'] ['n', '=', '%', 'd'] [['1']] := by
  have hd : Fits ['%', 'd'] := (fits_pair (by decide)).mpr (fits_of_not_mem (by simp))
  have hfits : Fits ['n', '=', '%', 'd'] :=
    (fits_char (by decide)).mpr ((fits_char (by decide)).mpr hd)
  have hprinted : printed ['n', '=', '%', 'd'] = [.char 'n', .char '=', .item [] 'd'] := by decide
  have haccept : strings.Acceptable ['n', '=', '%', 'd'] [['1']] := by
    rw [Acceptable, expected, hprinted]
    rfl
  have hone : (strings.text ['1']).isSome = true := rfl
  have hright := (buildMessage_right_iff strings hone telling_strings rfl).mpr hfits
  exact (hright [['1']] haccept).mpr fun arg _ => ⟨arg, if_pos rfl⟩

/-- The string `100%%` raises an error. -/
theorem buildMessage_double :
    ¬∀ (L : Values Str) (fmt s : Str) (args : List Str), L.string fmt = some s → L.Acceptable s args →
      (∀ arg ∈ args, L.Printable arg) → L.PrintsRight fmt s args := by
  intro h
  have hpieces : formatPieces 0 (escapeUnrecognized ['1', '0', '0', '%', '%']) =
      [.char '1', .char '0', .char '0', .char '%', .bad .invalidOption] := by decide
  have hprinted : printed ['1', '0', '0', '%', '%'] =
      [.char '1', .char '0', .char '0', .char '%'] := by decide
  have hstring : strings.string ['1', '0', '0', '%', '%'] = some ['1', '0', '0', '%', '%'] := rfl
  have haccept : strings.Acceptable ['1', '0', '0', '%', '%'] [] := by
    rw [Acceptable, expected, hprinted]
    rfl
  obtain ⟨text, -, hmessage⟩ := h strings _ _ [] hstring haccept (by simp)
  rw [buildMessage_of_mem hstring (by decide) rfl, hpieces] at hmessage
  cases hmessage

end Values

end LuaNode.Console
