import LuaNode.Library.Format
import LuaNode.Library.Separators

/-!
# Escaping percent signs

The percent signs of a format string that begin no specifier are escaped by a substitution that takes two
characters at a time. Behind `%%` the pairs are shifted by one character. What comes out is the format
string as it should be printed exactly when no two percent signs stand next to each other and none at
the end, but for three of them there.
-/

namespace LuaNode.Console

/-- `fmt:gsub("%%([^cdiouxXeEfgGqs])", "%%%%%1")`. -/
def escapeUnrecognized : Str → Str
  | '%' :: c :: s =>
    if isConversion c then '%' :: escapeUnrecognized (c :: s)
    else '%' :: '%' :: c :: escapeUnrecognized s
  | c :: s => c :: escapeUnrecognized s
  | [] => []

/-- The pieces of a format string as it should be printed: a specifier takes an argument, `%%` is one
percent sign, and every other character stands for itself. -/
def printed : Str → List Piece
  | '%' :: '%' :: s => .char '%' :: printed s
  | '%' :: c :: s => if isConversion c then .item [] c :: printed s else .char '%' :: printed (c :: s)
  | c :: s => .char c :: printed s
  | [] => []

/-- No two percent signs stand next to each other and none at the end, but for three of them there. -/
def Fits (s : Str) : Prop :=
  ∃ body, (s = body ∨ s = body ++ ['%', '%', '%']) ∧ ¬['%', '%'] <:+: body ∧ body.getLast? ≠ some '%'

/-! ### Percent signs -/

/-- How a format string can begin. -/
inductive Shape : Str → Prop
  | nil : Shape []
  | char {c s} : c ≠ '%' → Shape (c :: s)
  | last : Shape ['%']
  | conversion {c s} : isConversion c = true → Shape ('%' :: c :: s)
  | other {c s} : c ≠ '%' → isConversion c = false → Shape ('%' :: c :: s)
  | double {s} : Shape ('%' :: '%' :: s)

theorem shape (s : Str) : Shape s := by
  cases s with
  | nil => exact .nil
  | cons c s =>
    by_cases hc : c = '%'
    · subst hc
      cases s with
      | nil => exact .last
      | cons d s =>
        by_cases hd : d = '%'
        · exact hd ▸ .double
        · cases hconversion : isConversion d with
          | true => exact .conversion hconversion
          | false => exact .other hd hconversion
    · exact .char hc

theorem ne_percent_of_isConversion {c : Char} (h : isConversion c = true) : c ≠ '%' := by
  rintro rfl
  exact absurd h (by decide)

theorem escape_char {c : Char} (h : c ≠ '%') (s : Str) :
    escapeUnrecognized (c :: s) = c :: escapeUnrecognized s := by
  rw [escapeUnrecognized]
  intro d t hc
  exact absurd hc h

theorem escape_conversion {c : Char} (h : isConversion c = true) (s : Str) :
    escapeUnrecognized ('%' :: c :: s) = '%' :: c :: escapeUnrecognized s := by
  rw [escapeUnrecognized, if_pos h, escape_char (ne_percent_of_isConversion h)]

theorem escape_other {c : Char} (h : isConversion c = false) (s : Str) :
    escapeUnrecognized ('%' :: c :: s) = '%' :: '%' :: c :: escapeUnrecognized s := by
  rw [escapeUnrecognized, if_neg (by simp [h])]

theorem printed_char {c : Char} (h : c ≠ '%') (s : Str) : printed (c :: s) = .char c :: printed s := by
  rw [printed]
  · intro t hc
    exact absurd hc h
  · intro d t hc
    exact absurd hc h

theorem printed_pair {c : Char} (h : c ≠ '%') (s : Str) :
    printed ('%' :: c :: s) =
      if isConversion c then .item [] c :: printed s else .char '%' :: printed (c :: s) := by
  rw [printed]
  exact h

/-- What stands up to the end of an item was not escaped. -/
theorem exists_of_escape {form : Str} (hform : '%' ∉ form) {c : Char} (hc : c ≠ '%') {s rest : Str}
    (h : escapeUnrecognized s = form ++ c :: rest) :
    ∃ rest', s = form ++ c :: rest' ∧ escapeUnrecognized rest' = rest := by
  have hhead : ∀ {d : Char} {s t : Str}, d ≠ '%' → escapeUnrecognized s = d :: t →
      ∃ s', s = d :: s' ∧ escapeUnrecognized s' = t := by
    intro d s t hd hs
    cases shape s with
    | nil => cases hs
    | last => exact absurd (List.cons_eq_cons.mp hs).1.symm hd
    | char he =>
      rw [escape_char he] at hs
      obtain ⟨rfl, rfl⟩ := List.cons_eq_cons.mp hs
      exact ⟨_, rfl, rfl⟩
    | conversion he =>
      rw [escape_conversion he] at hs
      exact absurd (List.cons_eq_cons.mp hs).1.symm hd
    | other hne he =>
      rw [escape_other he] at hs
      exact absurd (List.cons_eq_cons.mp hs).1.symm hd
    | double =>
      rw [escape_other (by decide)] at hs
      exact absurd (List.cons_eq_cons.mp hs).1.symm hd
  induction form generalizing s with
  | nil => exact hhead hc h
  | cons d form ih =>
    obtain ⟨hd, hform⟩ : '%' ≠ d ∧ '%' ∉ form := by simpa using hform
    obtain ⟨s, rfl, hs⟩ := hhead (Ne.symm hd) h
    obtain ⟨rest', rfl, hrest⟩ := ih hform hs
    exact ⟨rest', rfl, hrest⟩

/-! ### Strings that fit -/

theorem fits_of_not_mem {s : Str} (h : '%' ∉ s) : Fits s := by
  refine ⟨s, .inl rfl, ?_, ?_⟩
  · intro hinf
    exact h (hinf.subset (by simp))
  · intro hlast
    exact h (List.mem_of_getLast? hlast)

theorem fits_char {c : Char} (h : c ≠ '%') {s : Str} : Fits (c :: s) ↔ Fits s := by
  have hinf : ∀ body : Str, ['%', '%'] <:+: c :: body ↔ ['%', '%'] <:+: body :=
    fun body => infix_append_cons h h [] body |>.trans (by simp)
  have hlast : ∀ body : Str, (c :: body).getLast? = some '%' ↔ body.getLast? = some '%' := by
    intro body
    cases body with
    | nil => simpa using h
    | cons d body => rw [List.getLast?_cons_cons]
  constructor
  · rintro ⟨body, hs, hdouble, hend⟩
    cases body with
    | nil => rcases hs with hs | hs <;> simp_all
    | cons d body =>
      obtain ⟨rfl, hbody⟩ : c = d ∧ (s = body ∨ s = body ++ ['%', '%', '%']) := by
        rcases hs with hs | hs <;> simp_all
      exact ⟨body, hbody, fun hin => hdouble ((hinf body).mpr hin), fun hl => hend ((hlast body).mpr hl)⟩
  · rintro ⟨body, hs, hdouble, hend⟩
    refine ⟨c :: body, ?_, fun hin => hdouble ((hinf body).mp hin), fun hl => hend ((hlast body).mp hl)⟩
    rcases hs with rfl | rfl <;> simp

theorem not_fits_last : ¬Fits ['%'] := by
  rintro ⟨body, hs | hs, -, hend⟩
  · exact hend (by rw [← hs]; rfl)
  · have hlength := congrArg List.length hs
    simp at hlength

/-- Behind two percent signs there is only a third one. -/
theorem fits_double {s : Str} : Fits ('%' :: '%' :: s) ↔ s = ['%'] := by
  constructor
  · rintro ⟨body, hs, hdouble, hend⟩
    cases body with
    | nil => simpa using hs
    | cons c body =>
      cases body with
      | nil =>
        have hc : '%' = c := by rcases hs with hs | hs <;> exact (List.cons_eq_cons.mp hs).1
        exact absurd (by rw [← hc]; rfl) hend
      | cons d body =>
        have hpercents : '%' = c ∧ '%' = d := by
          rcases hs with hs | hs <;> exact ⟨(List.cons_eq_cons.mp hs).1,
            (List.cons_eq_cons.mp (List.cons_eq_cons.mp hs).2).1⟩
        exact absurd (infix_cons_cons.mpr (.inl ⟨hpercents.1.symm, hpercents.2.symm⟩)) hdouble
  · rintro rfl
    exact ⟨[], .inr rfl, by simp, by simp⟩

theorem fits_pair {c : Char} (h : c ≠ '%') {s : Str} : Fits ('%' :: c :: s) ↔ Fits s := by
  rw [← fits_char h (s := s)]
  have hinf : ∀ body : Str, ['%', '%'] <:+: '%' :: c :: body ↔ ['%', '%'] <:+: c :: body :=
    fun body => infix_cons_cons.trans (or_iff_right fun hc => h hc.2)
  have hlast : ∀ body : Str, ('%' :: c :: body).getLast? = (c :: body).getLast? :=
    fun body => List.getLast?_cons_cons
  constructor
  · rintro ⟨body, hs, hdouble, hend⟩
    obtain ⟨rest, rfl⟩ : ∃ rest, body = '%' :: c :: rest := by
      cases body with
      | nil => rcases hs with hs | hs <;> simp_all
      | cons d body =>
        cases body with
        | nil => rcases hs with hs | hs <;> simp_all
        | cons e body => exact ⟨body, by rcases hs with hs | hs <;> grind⟩
    refine ⟨c :: rest, ?_, fun hin => hdouble ((hinf rest).mpr hin), hlast rest ▸ hend⟩
    rcases hs with hs | hs <;> simp_all
  · rintro ⟨body, hs, hdouble, hend⟩
    obtain ⟨rest, rfl⟩ : ∃ rest, body = c :: rest := by
      cases body with
      | nil => rcases hs with hs | hs <;> simp_all
      | cons d body => exact ⟨body, by rcases hs with hs | hs <;> simp_all⟩
    refine ⟨'%' :: c :: rest, ?_, fun hin => hdouble ((hinf rest).mp hin), (hlast rest).symm ▸ hend⟩
    rcases hs with hs | hs <;> simp_all

/-- A string that fits is read as it should be printed. -/
theorem formatPieces_escape {s : Str} (h : Fits s) : formatPieces 0 (escapeUnrecognized s) = printed s := by
  induction hn : s.length using Nat.strong_induction_on generalizing s with
  | _ n ih =>
    subst hn
    cases shape s with
    | nil => rfl
    | last => exact absurd h not_fits_last
    | char hc =>
      rw [escape_char hc, formatPieces_char hc, printed_char hc, ih _ (by simp) ((fits_char hc).mp h) rfl]
    | conversion hc =>
      have hne := ne_percent_of_isConversion hc
      rw [escape_conversion hc, formatPieces_conversion hc, printed_pair hne, if_pos hc,
        ih _ (by simp) ((fits_pair hne).mp h) rfl]
    | other hne hc =>
      rw [escape_other hc, formatPieces_percent, formatPieces_char hne, printed_pair hne,
        if_neg (by simp [hc]), printed_char hne, ih _ (by simp) ((fits_pair hne).mp h) rfl]
    | double =>
      obtain rfl := fits_double.mp h
      rfl

/-! ### Two texts -/

/-- What is known of the text of one argument: in a plain specifier it is not empty and does not end in a
percent sign, and in none it ends in the letter of the specifier. -/
structure Telling (convert : Str → Char → Option Str) : Prop where
  plain : ∀ {c}, isConversion c = true →
    ∃ text, convert [] c = some text ∧ text ≠ [] ∧ text.getLast? ≠ some '%'
  last : ∀ {form c text}, isConversion c = true → convert form c = some text → text.getLast? ≠ some c

section Texts

variable (convert : Str → Char → Option Str)

/-- The text of the escaped string. -/
def codeText (s : Str) : Option Str := renderAll convert (formatPieces 0 (escapeUnrecognized s))

/-- The text of the escaped string behind the odd one of three percent signs. -/
def shiftedText (s : Str) : Option Str :=
  renderAll convert (formatPieces 0 ('%' :: escapeUnrecognized s))

def printedText (s : Str) : Option Str := renderAll convert (printed s)

/-- Two texts that continue `x` and `y` come to the same. -/
def Meets (x : Str) (code : Option Str) (y : Str) (spec : Option Str) : Prop :=
  ∃ w v, code = some w ∧ spec = some v ∧ x ++ w = y ++ v

variable {convert}

theorem meets_none {x y : Str} {spec : Option Str} : ¬Meets x none y spec := by
  rintro ⟨w, v, hw, -, -⟩
  cases hw

theorem meets_map {x y a b : Str} {code spec : Option Str} :
    Meets x (code.map (a ++ ·)) y (spec.map (b ++ ·)) ↔ Meets (x ++ a) code (y ++ b) spec := by
  constructor
  · rintro ⟨w, v, hw, hv, heq⟩
    obtain ⟨w, hcode, rfl⟩ := Option.map_eq_some_iff.mp hw
    obtain ⟨v, hspec, rfl⟩ := Option.map_eq_some_iff.mp hv
    exact ⟨w, v, hcode, hspec, by simpa using heq⟩
  · rintro ⟨w, v, rfl, rfl, heq⟩
    exact ⟨a ++ w, b ++ v, rfl, rfl, by simpa using heq⟩

theorem codeText_char {c : Char} (h : c ≠ '%') (s : Str) :
    codeText convert (c :: s) = (codeText convert s).map ([c] ++ ·) := by
  unfold codeText
  rw [escape_char h, formatPieces_char h]
  rfl

theorem codeText_conversion {c : Char} (h : isConversion c = true) {text : Str}
    (htext : convert [] c = some text) (s : Str) :
    codeText convert ('%' :: c :: s) = (codeText convert s).map (text ++ ·) := by
  unfold codeText
  rw [escape_conversion h, formatPieces_conversion h, renderAll, htext]
  rfl

theorem codeText_other {c : Char} (hne : c ≠ '%') (h : isConversion c = false) (s : Str) :
    codeText convert ('%' :: c :: s) = (codeText convert s).map (['%', c] ++ ·) := by
  unfold codeText
  rw [escape_other h, formatPieces_percent, formatPieces_char hne, renderAll, renderAll, Option.map_map]
  rfl

theorem codeText_last : codeText convert ['%'] = none := rfl

theorem codeText_double (s : Str) :
    codeText convert ('%' :: '%' :: s) = (shiftedText convert s).map (['%'] ++ ·) := by
  unfold codeText shiftedText
  rw [escape_other (by decide), formatPieces_percent]
  rfl

theorem shiftedText_nil : shiftedText convert [] = none := rfl

theorem shiftedText_last : shiftedText convert ['%'] = some ['%'] := rfl

theorem shiftedText_conversion {c : Char} (h : isConversion c = true) (s : Str) :
    shiftedText convert ('%' :: c :: s) = (codeText convert s).map (['%', c] ++ ·) := by
  unfold shiftedText codeText
  rw [escape_conversion h, formatPieces_percent, formatPieces_char (ne_percent_of_isConversion h),
    renderAll, renderAll, Option.map_map]
  rfl

theorem shiftedText_other {c : Char} (hne : c ≠ '%') (h : isConversion c = false) (s : Str) :
    shiftedText convert ('%' :: c :: s) = (shiftedText convert (c :: s)).map (['%'] ++ ·) := by
  unfold shiftedText
  rw [escape_other h, formatPieces_percent, escape_char hne]
  rfl

theorem shiftedText_double (s : Str) :
    shiftedText convert ('%' :: '%' :: s) = (codeText convert s).map (['%', '%'] ++ ·) := by
  unfold shiftedText codeText
  rw [escape_other (by decide), formatPieces_percent, formatPieces_percent, renderAll, renderAll,
    Option.map_map]
  rfl

/-- An odd percent sign takes the characters behind it for a specifier. -/
theorem shiftedText_char {c : Char} (h : c ≠ '%') (s : Str) :
    shiftedText convert (c :: s) = none ∨
      ∃ form d rest text, c :: s = form ++ d :: rest ∧ '%' ∉ form ∧ isConversion d = true ∧
        convert form d = some text ∧
        shiftedText convert (c :: s) = (codeText convert rest).map (text ++ ·) := by
  have hhead : (escapeUnrecognized (c :: s)).head? ≠ some '%' := by
    rw [escape_char h]
    simpa using h
  unfold shiftedText
  rcases formatPieces_item hhead with ⟨e, hbad⟩ | ⟨form, d, rest, hescape, hform, hd, hitem⟩
  · rw [hbad]
    exact .inl rfl
  · obtain ⟨rest, hs, rfl⟩ := exists_of_escape hform (ne_percent_of_isConversion hd) hescape
    rw [hitem, renderAll]
    cases htext : convert form d with
    | none => exact .inl rfl
    | some text => exact .inr ⟨form, d, rest, text, hs, hform, hd, htext, rfl⟩

theorem printedText_char {c : Char} (h : c ≠ '%') (s : Str) :
    printedText convert (c :: s) = (printedText convert s).map ([c] ++ ·) := by
  unfold printedText
  rw [printed_char h]
  rfl

theorem printedText_conversion {c : Char} (h : isConversion c = true) {text : Str}
    (htext : convert [] c = some text) (s : Str) :
    printedText convert ('%' :: c :: s) = (printedText convert s).map (text ++ ·) := by
  unfold printedText
  rw [printed_pair (ne_percent_of_isConversion h), if_pos h, renderAll, htext]
  rfl

theorem printedText_other {c : Char} (hne : c ≠ '%') (h : isConversion c = false) (s : Str) :
    printedText convert ('%' :: c :: s) = (printedText convert (c :: s)).map (['%'] ++ ·) := by
  unfold printedText
  rw [printed_pair hne, if_neg (by simp [h])]
  rfl

theorem printedText_last : printedText convert ['%'] = some ['%'] := rfl

theorem printedText_double (s : Str) :
    printedText convert ('%' :: '%' :: s) = (printedText convert s).map (['%'] ++ ·) := rfl

theorem printedText_plain {plain : Str} (h : '%' ∉ plain) (s : Str) :
    printedText convert (plain ++ s) = (printedText convert s).map (plain ++ ·) := by
  induction plain with
  | nil => simp
  | cons c plain ih =>
    obtain ⟨hc, hplain⟩ : '%' ≠ c ∧ '%' ∉ plain := by simpa using h
    rw [List.cons_append, printedText_char (Ne.symm hc), ih hplain, Option.map_map]
    rfl

variable (convert)

/-! The text of the code continues `x`, what should be printed continues `y`. -/

/-- While no percent sign was printed last, the two come to the same only for a string that fits. -/
def Aligned (s : Str) : Prop :=
  ∀ x y, y.getLast? ≠ some '%' → Meets x (codeText convert s) y (printedText convert s) →
    x = y ∧ Fits s

/-- What is not made up for by percent signs stays different. -/
def Ahead (s : Str) : Prop :=
  ∀ x y, (∀ n, x ++ List.replicate n '%' ≠ y) →
    ¬Meets x (codeText convert s) y (printedText convert s)

/-- Behind two percent signs the texts come to the same only if there is a third and nothing else. -/
def Shifted (s : Str) : Prop :=
  ∀ x y, x.getLast? = some '%' → (∀ n, x ++ List.replicate (n + 1) '%' ≠ y) →
    Meets x (shiftedText convert s) y (printedText convert s) → x = y ∧ s = ['%']

variable {convert}

/-- The specifier that an odd percent sign makes does not end in its letter. -/
theorem not_meets_shifted_char (h : Telling convert) {c : Char} (hc : c ≠ '%') {s x y : Str}
    (hshorter : ∀ t : Str, t.length < (c :: s).length → Aligned convert t) (hx : x.getLast? = some '%') :
    ¬Meets x (shiftedText convert (c :: s)) y (printedText convert (c :: s)) := by
  intro hmeets
  have hitem : shiftedText convert (c :: s) = none ∨ _ := shiftedText_char hc s
  rcases hitem with hnone | ⟨form, d, rest, text, hs, hform, hd, htext, hshifted⟩
  · rw [hnone] at hmeets
    exact meets_none hmeets
  · have hplain : '%' ∉ form ++ [d] := by
      simp [hform, Ne.symm (ne_percent_of_isConversion hd)]
    have hassoc : form ++ d :: rest = (form ++ [d]) ++ rest := by simp
    rw [hshifted, hs, hassoc, printedText_plain hplain, meets_map] at hmeets
    have hlength : rest.length < (c :: s).length := by
      rw [hs, List.length_append, List.length_cons]
      omega
    have hlast : (y ++ (form ++ [d])).getLast? = some d := by simp
    have hne : (y ++ (form ++ [d])).getLast? ≠ some '%' := by
      rw [hlast]
      simpa using ne_percent_of_isConversion hd
    obtain ⟨hsame, -⟩ := hshorter rest hlength _ _ hne hmeets
    rw [← hsame, List.getLast?_append, hx] at hlast
    have htelling := h.last hd htext
    cases hend : text.getLast? with
    | none =>
      rw [hend] at hlast
      exact ne_percent_of_isConversion hd (Option.some.inj hlast).symm
    | some e =>
      rw [hend] at hlast htelling
      exact htelling hlast

/-- The beginning of a string that is printed as it should be. -/
theorem text_cases (h : Telling convert) (s : Str) :
    s = [] ∨ s = ['%'] ∨ (∃ t, s = '%' :: '%' :: t) ∨
      ∃ text rest, rest.length < s.length ∧ text ≠ [] ∧ text.getLast? ≠ some '%' ∧
        codeText convert s = (codeText convert rest).map (text ++ ·) ∧
        printedText convert s = (printedText convert rest).map (text ++ ·) ∧ (Fits s ↔ Fits rest) := by
  cases shape s with
  | nil => exact .inl rfl
  | last => exact .inr (.inl rfl)
  | @double t => exact .inr (.inr (.inl ⟨t, rfl⟩))
  | @char c t hc =>
    refine .inr (.inr (.inr ⟨[c], t, by simp, by simp, by simpa using hc, ?_, ?_, fits_char hc⟩))
    · exact codeText_char hc t
    · exact printedText_char hc t
  | @conversion c t hc =>
    obtain ⟨text, htext, hne, hend⟩ := h.plain hc
    refine .inr (.inr (.inr ⟨text, t, by simp, hne, hend, ?_, ?_, ?_⟩))
    · exact codeText_conversion hc htext t
    · exact printedText_conversion hc htext t
    · exact fits_pair (ne_percent_of_isConversion hc)
  | @other c t hne hc =>
    refine .inr (.inr (.inr ⟨['%', c], t, by simp, by simp, by simpa using hne, ?_, ?_, fits_pair hne⟩))
    · exact codeText_other hne hc t
    · rw [printedText_other hne hc, printedText_char hne, Option.map_map]
      rfl

theorem append_percents_iff {x y : Str} {n : ℕ} :
    x ++ ['%'] ++ List.replicate n '%' = y ++ ['%'] ↔ x ++ List.replicate n '%' = y := by
  have hcomm : x ++ ['%'] ++ List.replicate n '%' = x ++ List.replicate n '%' ++ ['%'] := by
    rw [List.append_assoc, List.append_assoc, List.singleton_append, ← List.replicate_succ,
      List.replicate_succ']
  rw [hcomm, List.append_left_inj]

theorem meets_self {x y text : Str} (h : Meets x (some text) y (some text)) : x = y := by
  obtain ⟨w, v, hw, hv, heq⟩ := h
  obtain rfl := Option.some.inj hw
  obtain rfl := Option.some.inj hv
  exact List.append_cancel_right heq

theorem getLast?_append_ne {y text : Str} (hne : text ≠ []) (h : text.getLast? ≠ some '%') :
    (y ++ text).getLast? ≠ some '%' := by
  rw [List.getLast?_append]
  cases hend : text.getLast? with
  | none => exact absurd (List.getLast?_eq_none_iff.mp hend) hne
  | some e =>
    rw [hend] at h
    exact h

/-- Behind `%%` both texts have one more percent sign. -/
theorem meets_double {s x y : Str} (hshifted : Shifted convert s)
    (hpercents : ∀ n, x ++ List.replicate (n + 1) '%' ≠ y)
    (h : Meets x (codeText convert ('%' :: '%' :: s)) y (printedText convert ('%' :: '%' :: s))) :
    x = y ∧ s = ['%'] := by
  rw [codeText_double, printedText_double, meets_map] at h
  have hlast : (x ++ ['%']).getLast? = some '%' := by simp
  obtain ⟨hsame, hs⟩ :=
    hshifted _ _ hlast (fun n heq => hpercents n (append_percents_iff.mp heq)) h
  exact ⟨List.append_cancel_right hsame, hs⟩

theorem Aligned.step (h : Telling convert) {s : Str}
    (haligned : ∀ t : Str, t.length < s.length → Aligned convert t)
    (hshifted : ∀ t : Str, t.length < s.length → Shifted convert t) : Aligned convert s := by
  intro x y hy hmeets
  rcases text_cases h s with rfl | rfl | ⟨t, rfl⟩ | ⟨text, rest, hlength, hne, hend, hcode, hspec, hfits⟩
  · exact ⟨meets_self hmeets, fits_of_not_mem (by simp)⟩
  · rw [codeText_last] at hmeets
    exact absurd hmeets meets_none
  · have hpercents : ∀ n, x ++ List.replicate (n + 1) '%' ≠ y := by
      rintro n rfl
      exact hy (by simp [List.getLast?_append, List.getLast?_replicate])
    obtain ⟨hsame, ht⟩ := meets_double (hshifted t (by simp)) hpercents hmeets
    exact ⟨hsame, fits_double.mpr ht⟩
  · rw [hcode, hspec, meets_map] at hmeets
    obtain ⟨hsame, hrest⟩ := haligned rest hlength _ _ (getLast?_append_ne hne hend) hmeets
    exact ⟨List.append_cancel_right hsame, hfits.mpr hrest⟩

theorem Ahead.step (h : Telling convert) {s : Str}
    (haligned : ∀ t : Str, t.length < s.length → Aligned convert t)
    (hshifted : ∀ t : Str, t.length < s.length → Shifted convert t) : Ahead convert s := by
  intro x y hpercents hmeets
  have hne : x ≠ y := by simpa using hpercents 0
  rcases text_cases h s with rfl | rfl | ⟨t, rfl⟩ | ⟨text, rest, hlength, htext, hend, hcode, hspec, -⟩
  · exact hne (meets_self hmeets)
  · rw [codeText_last] at hmeets
    exact meets_none hmeets
  · exact hne (meets_double (hshifted t (by simp)) (fun n => hpercents (n + 1)) hmeets).1
  · rw [hcode, hspec, meets_map] at hmeets
    obtain ⟨hsame, -⟩ := haligned rest hlength _ _ (getLast?_append_ne htext hend) hmeets
    exact hne (List.append_cancel_right hsame)

theorem Shifted.step (h : Telling convert) {s : Str}
    (haligned : ∀ t : Str, t.length < s.length → Aligned convert t)
    (hahead : ∀ t : Str, t.length < s.length → Ahead convert t) : Shifted convert s := by
  intro x y hx hpercents hmeets
  cases shape s with
  | nil =>
    rw [shiftedText_nil] at hmeets
    exact absurd hmeets meets_none
  | char hc => exact absurd hmeets (not_meets_shifted_char h hc haligned hx)
  | last =>
    rw [shiftedText_last, printedText_last] at hmeets
    exact ⟨meets_self hmeets, rfl⟩
  | @conversion c t hc =>
    obtain ⟨text, htext, hne, hend⟩ := h.plain hc
    rw [shiftedText_conversion hc, printedText_conversion hc htext, meets_map] at hmeets
    obtain ⟨hsame, -⟩ := haligned t (by simp) _ _ (getLast?_append_ne hne hend) hmeets
    -- the code has printed the letter, and what should be printed does not end in it
    have hletter : (x ++ ['%', c]).getLast? = some c := by simp
    rw [hsame, List.getLast?_append] at hletter
    cases hlast : text.getLast? with
    | none => exact absurd (List.getLast?_eq_none_iff.mp hlast) hne
    | some e =>
      rw [hlast] at hletter
      exact absurd (hlast.trans hletter) (h.last hc htext)
  | @other c t hne hc =>
    rw [shiftedText_other hne hc, printedText_other hne hc, meets_map] at hmeets
    have hshorter : ∀ u : Str, u.length < (c :: t).length → Aligned convert u :=
      fun u hu => haligned u (hu.trans (by simp))
    exact absurd hmeets (not_meets_shifted_char h hne hshorter (by simp))
  | @double t =>
    rw [shiftedText_double, printedText_double, meets_map] at hmeets
    have hmore : ∀ n, x ++ ['%', '%'] ++ List.replicate n '%' ≠ y ++ ['%'] := by
      intro n heq
      have hsplit : x ++ ['%', '%'] ++ List.replicate n '%' =
          x ++ ['%'] ++ List.replicate (n + 1) '%' := by
        simp [List.replicate_succ]
      exact hpercents n (append_percents_iff.mp (hsplit ▸ heq))
    exact absurd hmeets (hahead t (by simp) _ _ hmore)

theorem aligned_and_shifted (h : Telling convert) (s : Str) :
    Aligned convert s ∧ Ahead convert s ∧ Shifted convert s := by
  induction hn : s.length using Nat.strong_induction_on generalizing s with
  | _ n ih =>
    subst hn
    have haligned : ∀ t : Str, t.length < s.length → Aligned convert t := fun t ht => (ih _ ht t rfl).1
    have hahead : ∀ t : Str, t.length < s.length → Ahead convert t := fun t ht => (ih _ ht t rfl).2.1
    have hshifted : ∀ t : Str, t.length < s.length → Shifted convert t := fun t ht => (ih _ ht t rfl).2.2
    exact ⟨.step h haligned hshifted, .step h haligned hshifted, .step h haligned hahead⟩

/-- Only a string that fits can come to the text that should be printed. -/
theorem fits_of_codeText_eq (h : Telling convert) {s text : Str} (hcode : codeText convert s = some text)
    (hspec : printedText convert s = some text) : Fits s := by
  have hmeets : Meets [] (codeText convert s) [] (printedText convert s) :=
    ⟨text, text, hcode, hspec, rfl⟩
  exact ((aligned_and_shifted h s).1 [] [] (by simp) hmeets).2

/-- Every specifier of the string has a text. -/
theorem printedText_isSome (h : Telling convert) (s : Str) : (printedText convert s).isSome = true := by
  induction hn : s.length using Nat.strong_induction_on generalizing s with
  | _ n ih =>
    subst hn
    rcases text_cases h s with rfl | rfl | ⟨t, rfl⟩ | ⟨text, rest, hlength, -, -, -, hspec, -⟩
    · rfl
    · rfl
    · rw [printedText_double, Option.isSome_map]
      exact ih _ (by simp) t rfl
    · rw [hspec, Option.isSome_map]
      exact ih _ hlength rest rfl

end Texts

end LuaNode.Console
