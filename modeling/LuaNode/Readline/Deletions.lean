import LuaNode.Library.Delimiter
import LuaNode.Readline.Cursor
import Mathlib.Data.List.TakeWhile

/-!
# Deletions

What a deletion has to do is said of the text on its side of the cursor, read away from the cursor: a segment
at its beginning is taken, and what the segment is depends on the command. The slices of the
commands are compared with that.
-/

namespace LuaNode.Readline

/-! ### Words -/

/-- The classes of characters that the patterns of the word commands tell apart. -/
inductive Kind
  | blank
  | letter
  | sign
  deriving DecidableEq

def kind (c : Char) : Kind :=
  if isSpace c then .blank else if c.isAlphanum then .letter else .sign

/-- Characters of one kind, and no blanks. -/
def IsWord (w : Str) : Prop := w ≠ [] ∧ ∃ k, k ≠ Kind.blank ∧ ∀ c ∈ w, kind c = k

/-- The segment is a whole word, with the blanks before it and perhaps with those behind it. -/
def TakesWord (segment rest : Str) : Prop :=
  ∃ gap word tail, segment = gap ++ (word ++ tail) ∧ (∀ c ∈ gap, kind c = .blank) ∧ IsWord word ∧
    (∀ c ∈ tail, kind c = .blank) ∧ ∀ c ∈ (tail ++ rest).head?, ¬ IsWord (word ++ [c])

theorem isSpace_eq (c : Char) : isSpace c = decide (kind c = .blank) := by
  unfold kind
  split_ifs with hspace hletter <;> simp [hspace]

/-- `%w` and `%s` exclude each other. -/
theorem not_isSpace_of_isAlphanum {c : Char} (h : c.isAlphanum = true) : isSpace c = false := by
  simp only [isSpace, Bool.or_eq_false_iff, decide_eq_false_iff_not, Bool.and_eq_false_iff]
  have hcode : 48 ≤ c.toNat := by
    rcases Bool.or_eq_true_iff.mp h with halpha | hdigit
    · have hletter := (isAlpha_iff_toNat c).mp halpha
      omega
    · exact (Char.isDigit_iff_toNat.mp hdigit).1
  refine ⟨?_, .inr (by omega)⟩
  rintro rfl
  exact absurd hcode (by decide)

theorem isAlphanum_eq (c : Char) : c.isAlphanum = decide (kind c = .letter) := by
  unfold kind
  split_ifs with hspace hletter
  · by_contra hne
    have halnum : c.isAlphanum = true := by simpa using hne
    exact absurd (not_isSpace_of_isAlphanum halnum) (by simp [hspace])
  · simp [hletter]
  · simp [hletter]

theorem isSign_eq (c : Char) : (!c.isAlphanum && !isSpace c) = decide (kind c = .sign) := by
  rw [isAlphanum_eq, isSpace_eq]
  cases kind c <;> rfl

/-! ### The first word of a text -/

/-- A text begins with blanks and goes on with the longest run of another kind. -/
structure Leads (text gap word more : Str) (k : Kind) : Prop where
  eq : text = gap ++ (word ++ more)
  gap_blank : ∀ c ∈ gap, kind c = .blank
  kind_ne : k ≠ .blank
  nonempty : word ≠ []
  same : ∀ c ∈ word, kind c = k
  ends : ∀ c ∈ more.head?, kind c ≠ k

variable {text gap word more : Str} {k : Kind}

theorem exists_leads (h : ∃ c ∈ text, kind c ≠ .blank) :
    ∃ gap word more k, Leads text gap word more k := by
  induction text with
  | nil => simp at h
  | cons c text ih =>
    by_cases hc : kind c = .blank
    · have hrest : ∃ c ∈ text, kind c ≠ .blank := by simpa [hc] using h
      obtain ⟨gap, word, more, k, hleads⟩ := ih hrest
      refine ⟨c :: gap, word, more, k, by rw [hleads.eq, List.cons_append], ?_, hleads.kind_ne,
        hleads.nonempty, hleads.same, hleads.ends⟩
      exact List.forall_mem_cons.mpr ⟨hc, hleads.gap_blank⟩
    · refine ⟨[], c :: text.takeWhile (fun d => kind d = kind c), text.dropWhile (fun d => kind d = kind c),
        kind c, by simp, by simp, hc, by simp, ?_, ?_⟩
      · intro d hd
        rcases List.mem_cons.mp hd with rfl | hd
        · rfl
        · simpa using List.mem_takeWhile_imp hd
      · intro d hd
        have hhead := List.head?_dropWhile_not (fun d => decide (kind d = kind c)) text
        rw [Option.mem_def.mp hd] at hhead
        simpa using hhead

/-- The blanks end where the word begins. -/
theorem Leads.word_head (h : Leads text gap word more k) :
    ∀ c ∈ (word ++ more).head?, kind c = k := by
  intro c hc
  cases hword : word with
  | nil => exact absurd hword h.nonempty
  | cons d word =>
    rw [hword] at hc
    obtain rfl : d = c := by simpa using hc
    exact h.same d (by simp [hword])

theorem Leads.dropWhile_blank (h : Leads text gap word more k) :
    text.dropWhile isSpace = word ++ more := by
  rw [h.eq]
  refine dropWhile_append_stop (fun c hc => ?_) fun c hc => ?_
  · simp [isSpace_eq, h.gap_blank c hc]
  · simp [isSpace_eq, h.word_head c hc, h.kind_ne]

theorem Leads.takeWhile_kind (h : Leads text gap word more k) :
    (word ++ more).takeWhile (fun c => kind c = k) = word :=
  takeWhile_append_stop (by simpa using h.same) (by simpa using h.ends)

theorem Leads.takeWhile_other (h : Leads text gap word more k) {l : Kind} (hl : k ≠ l) :
    (word ++ more).takeWhile (fun c => kind c = l) = [] := by
  have hempty : ([] ++ (word ++ more)).takeWhile (fun c => decide (kind c = l)) = [] :=
    takeWhile_append_stop (by simp) fun c hc => by simp [h.word_head c hc, hl]
  exact hempty

/-- The text begins with the word exactly when its first character is no blank. -/
theorem Leads.head_iff (h : Leads text gap word more k) :
    (∀ c ∈ text.head?, kind c ≠ .blank) ↔ gap = [] := by
  rw [h.eq]
  cases hgap : gap with
  | nil =>
    refine iff_of_true (fun c hc => ?_) rfl
    rw [List.nil_append] at hc
    rw [h.word_head c hc]
    exact h.kind_ne
  | cons c gap' =>
    have hblank : kind c = .blank := h.gap_blank c (by simp [hgap])
    exact iff_of_false (fun hall => hall c rfl hblank) (by simp)

theorem Leads.others_of_letter (h : Leads text [] word more .letter) :
    text.takeWhile (!·.isAlphanum) = [] := by
  have hstop : ∀ c ∈ text.head?, (!c.isAlphanum) = false := by
    intro c hc
    rw [h.eq, List.nil_append] at hc
    simp [isAlphanum_eq, h.word_head c hc]
  have hnone : ([] ++ text).takeWhile (fun c : Char => !c.isAlphanum) = [] :=
    takeWhile_append_stop (by simp) hstop
  exact hnone

theorem Leads.others_of_sign (h : Leads text [] word more .sign) :
    text.takeWhile (!·.isAlphanum) = word ++ more.takeWhile (!·.isAlphanum) := by
  rw [h.eq, List.nil_append, List.takeWhile_append_of_pos]
  intro c hc
  simp [isAlphanum_eq, h.same c hc]

/-- The signs of the word come first, and then signs and blanks up to the next letter. -/
theorem Leads.behind_of_sign (h : Leads text [] word more .sign) :
    (text.takeWhile (!·.isAlphanum)).dropWhile (kind · = .sign) = more.takeWhile (!·.isAlphanum) := by
  rw [h.others_of_sign]
  refine dropWhile_append_stop (by simpa using h.same) fun c hc => ?_
  rw [List.head?_takeWhile] at hc
  have hmore : c ∈ more.head? := (Option.mem_filter_iff.mp hc).1
  simpa using h.ends c hmore

/-- The word before the cursor is the first one from behind. -/
theorem wordBefore_of_leads {leading : Str} (h : Leads leading.reverse gap word more k) :
    wordBefore leading = some word.reverse := by
  have hsigns : (fun c : Char => !c.isAlphanum && !isSpace c) = fun c => decide (kind c = .sign) :=
    funext isSign_eq
  have hletters : Char.isAlphanum = fun c => decide (kind c = .letter) := funext isAlphanum_eq
  unfold wordBefore
  rw [hsigns, hletters, h.dropWhile_blank]
  cases k with
  | blank => exact absurd rfl h.kind_ne
  | letter => simp [h.takeWhile_other (l := .sign), h.takeWhile_kind, h.nonempty]
  | sign => simp [h.takeWhile_kind, h.nonempty]

theorem wordBefore_of_blank {leading : Str} (h : ∀ c ∈ leading, kind c = .blank) :
    wordBefore leading = none := by
  have hempty : leading.reverse.dropWhile isSpace = [] := by
    have hdrop : (leading.reverse ++ []).dropWhile isSpace = [] :=
      dropWhile_append_stop (by simpa [isSpace_eq] using h) (by simp)
    simpa using hdrop
  simp [wordBefore, hempty]

/-- There is no word before the cursor when there are only blanks. -/
theorem wordBefore_eq_none_iff (leading : Str) :
    wordBefore leading = none ↔ ∀ c ∈ leading, kind c = .blank := by
  constructor
  · intro hnone
    by_contra hword
    have hmem : ∃ c ∈ leading.reverse, kind c ≠ .blank := by simpa using hword
    obtain ⟨gap, word, more, k, h⟩ := exists_leads hmem
    simp [wordBefore_of_leads h] at hnone
  · exact wordBefore_of_blank

/-- What `_wordRight` matches: blanks alone, or signs with the blanks and signs that follow, or
letters with the blanks that follow. -/
theorem wordAfter_of_leads (h : Leads text gap word more k) :
    wordAfter text = some (if gap ≠ [] then gap else if k = .sign then text.takeWhile (!·.isAlphanum)
      else word ++ more.takeWhile isSpace) := by
  have hblanks : text.takeWhile isSpace = gap := by
    rw [h.eq]
    refine takeWhile_append_stop (fun c hc => ?_) fun c hc => ?_
    · simp [isSpace_eq, h.gap_blank c hc]
    · simp [isSpace_eq, h.word_head c hc, h.kind_ne]
  unfold wordAfter
  rw [hblanks]
  by_cases hgap : gap = []
  · have htext : text = word ++ more := by rw [h.eq, hgap, List.nil_append]
    obtain ⟨c, rest, hword⟩ := List.exists_cons_of_ne_nil h.nonempty
    have hc : kind c = k := h.same c (by simp [hword])
    cases hk : k with
    | blank => exact absurd hk h.kind_ne
    | sign =>
      have hothers : text.takeWhile (!·.isAlphanum) ≠ [] := by
        simp [htext, hword, isAlphanum_eq, hc, hk]
      simp [hgap, hothers]
    | letter =>
      have hothers : text.takeWhile (!·.isAlphanum) = [] := by
        subst hgap hk
        exact h.others_of_letter
      have hletters : text.takeWhile Char.isAlphanum = word := by
        have hfun : Char.isAlphanum = fun c => decide (kind c = k) := by
          rw [hk]
          exact funext isAlphanum_eq
        rw [hfun, htext, h.takeWhile_kind]
      have hdrop : text.drop word.length = more := by rw [htext, List.drop_left]
      dsimp only
      rw [hgap, hothers, hletters, hdrop]
      simp [h.nonempty]
  · simp [hgap]

theorem wordAfter_of_blank (hne : text ≠ []) (h : ∀ c ∈ text, kind c = .blank) :
    wordAfter text = some text := by
  have hall : text.takeWhile isSpace = text :=
    List.takeWhile_eq_self_iff.mpr fun c hc => by simp [isSpace_eq, h c hc]
  simp [wordAfter, hall, hne]

/-- Something always stands behind a cursor that is not at the end of the line. -/
theorem wordAfter_isSome (hne : text ≠ []) : ∃ found, wordAfter text = some found := by
  by_cases h : ∃ c ∈ text, kind c ≠ .blank
  · obtain ⟨gap, word, more, k, hleads⟩ := exists_leads h
    exact ⟨_, wordAfter_of_leads hleads⟩
  · exact ⟨text, wordAfter_of_blank hne (by simpa using h)⟩

/-! ### Segments -/

theorem Leads.unique {gap' word' more' : Str} {k' : Kind} (h : Leads text gap word more k)
    (h' : Leads text gap' word' more' k') : gap = gap' ∧ word = word' := by
  have hbody : word ++ more = word' ++ more' := by rw [← h.dropWhile_blank, ← h'.dropWhile_blank]
  have hgap : gap = gap' := by
    have heq : gap ++ (word ++ more) = gap' ++ (word ++ more) := by
      rw [← h.eq, hbody]
      exact h'.eq
    exact List.append_cancel_right heq
  have hkind : k = k' := by
    obtain ⟨c, rest, hword⟩ := List.exists_cons_of_ne_nil h.nonempty
    have hhead : c ∈ (word ++ more).head? := by simp [hword]
    rw [← h.word_head c hhead, h'.word_head c (hbody ▸ hhead)]
  refine ⟨hgap, ?_⟩
  rw [← h.takeWhile_kind, ← h'.takeWhile_kind, hbody, hkind]

/-- The segment that takes the first word of a text is determined up to the blanks behind. -/
theorem takesWord_iff {segment rest : Str} (h : Leads (segment ++ rest) gap word more k) :
    TakesWord segment rest ↔
      ∃ tail, segment = gap ++ (word ++ tail) ∧ ∀ c ∈ tail, kind c = .blank := by
  constructor
  · rintro ⟨gap', word', tail, hsegment, hgap, ⟨hne, k', hk, hsame⟩, htail, hends⟩
    have hleads : Leads (segment ++ rest) gap' word' (tail ++ rest) k' := by
      refine ⟨by simp [hsegment], hgap, hk, hne, hsame, fun c hc hkind => ?_⟩
      refine hends c hc ⟨by simp, k', hk, ?_⟩
      simpa [or_imp, forall_and, hkind] using hsame
    obtain ⟨rfl, rfl⟩ := h.unique hleads
    exact ⟨tail, hsegment, htail⟩
  · rintro ⟨tail, hsegment, htail⟩
    refine ⟨gap, word, tail, hsegment, h.gap_blank, ⟨h.nonempty, k, h.kind_ne, h.same⟩, htail, ?_⟩
    have hmore : more = tail ++ rest := by
      have heq := h.eq
      rw [hsegment] at heq
      simpa using heq.symm
    rintro c hc ⟨-, k', -, hsame⟩
    obtain ⟨d, word', hword⟩ := List.exists_cons_of_ne_nil h.nonempty
    have hkind : k = k' := by
      rw [← h.same d (by simp [hword]), hsame d (by simp [hword])]
    exact h.ends c (hmore ▸ hc) (hkind ▸ hsame c (by simp))

/-- A segment of the length of the first word takes it exactly when no blanks are before it. -/
theorem takesWord_length_iff {segment rest : Str} (h : Leads (segment ++ rest) gap word more k)
    (hlength : segment.length = word.length) : TakesWord segment rest ↔ gap = [] := by
  rw [takesWord_iff h]
  constructor
  · rintro ⟨tail, htail, -⟩
    have hle := congrArg List.length htail
    simp only [List.length_append] at hle
    exact List.length_eq_zero_iff.mp (by omega)
  · rintro rfl
    have heq : segment ++ rest = word ++ more := h.eq
    have hsegment : segment = word := (List.append_inj heq hlength).1
    exact ⟨[], by simp [hsegment], by simp⟩

/-! ### The commands -/

inductive Deletion
  /-- Backspace and Ctrl-H -/
  | left
  /-- Delete and Ctrl-D -/
  | right
  | wordLeft
  | wordRight
  | lineLeft
  | lineRight
  deriving DecidableEq

namespace Deletion

/-- It deletes what stands before the cursor. -/
def isLeft : Deletion → Bool
  | .left | .wordLeft | .lineLeft => true
  | .right | .wordRight | .lineRight => false

/-- What a deletion takes of the text on its side, which is `segment ++ rest` when it is read away from
the cursor. -/
def Takes (segment rest : Str) : Deletion → Prop
  | .left | .right => segment.length = min 1 (segment ++ rest).length
  | .wordLeft | .wordRight => (∃ c ∈ segment ++ rest, kind c ≠ .blank) → TakesWord segment rest
  | .lineLeft | .lineRight => rest = []

/-- One segment is deleted at the cursor between `before` and `after`, and the cursor is where the
segment was. -/
def Meets (d : Deletion) (before after line : Str) (cursor : ℤ) : Prop :=
  if d.isLeft then
    ∃ kept segment, before = kept ++ segment ∧ line = kept ++ after ∧ cursor = kept.length ∧
      d.Takes segment.reverse kept.reverse
  else
    ∃ segment kept, after = segment ++ kept ∧ line = before ++ kept ∧ cursor = before.length ∧
      d.Takes segment kept

/-- When the commands delete what they should. -/
def Fits (before after : Str) : Deletion → Prop
  | .left | .right | .lineRight => True
  | .lineLeft => before = []
  | .wordLeft =>
    (∀ c ∈ before.getLast?, kind c ≠ .blank) ∨ (∀ c ∈ before, kind c = .blank) ∧ after = []
  | .wordRight =>
    (∀ c ∈ after, kind c = .blank) ∨ (∀ c ∈ after.head?, kind c ≠ .blank) ∧
      ∀ c ∈ (after.takeWhile (!·.isAlphanum)).dropWhile (kind · = .sign), kind c = .blank

theorem meets_left {d : Deletion} (hd : d.isLeft = true) {before kept segment : Str}
    (hbefore : before = kept ++ segment) (after : Str) :
    d.Meets before after (kept ++ after) kept.length ↔ d.Takes segment.reverse kept.reverse := by
  simp only [Meets, hd, if_true]
  constructor
  · rintro ⟨kept', segment', hbefore', hline, -, htakes⟩
    obtain rfl := List.append_cancel_right hline
    obtain rfl := List.append_cancel_left (hbefore.symm.trans hbefore')
    exact htakes
  · intro htakes
    exact ⟨kept, segment, hbefore, rfl, rfl, htakes⟩

/-- At the start of the line nothing is deleted to the left. -/
theorem meets_start {d : Deletion} (hd : d.isLeft = true) (htakes : d.Takes [] []) (after : Str) :
    d.Meets [] after after 0 :=
  (meets_left hd (List.nil_append []).symm after).mpr htakes

theorem meets_right {d : Deletion} (hd : d.isLeft = false) {after segment kept : Str}
    (hafter : after = segment ++ kept) (before : Str) :
    d.Meets before after (before ++ kept) before.length ↔ d.Takes segment kept := by
  simp only [Meets, hd, Bool.false_eq_true, if_false]
  constructor
  · rintro ⟨segment', kept', hafter', hline, -, htakes⟩
    obtain rfl := List.append_cancel_left hline
    obtain rfl := List.append_cancel_right (hafter.symm.trans hafter')
    exact htakes
  · intro htakes
    exact ⟨segment, kept, hafter, rfl, trivial, htakes⟩

end Deletion

namespace Interface

def delete (s : Interface) : Deletion → Interface
  | .left => s.deleteLeft
  | .right => s.deleteRight
  | .wordLeft => s.deleteWordLeft
  | .wordRight => s.deleteWordRight
  | .lineLeft => s.deleteLineLeft
  | .lineRight => s.deleteLineRight

/-- The editor with the cursor between two texts. -/
def holding (s : Interface) (before after : Str) : Interface :=
  { s with line := before ++ after, cursor := before.length }

variable {s : Interface} {before after : Str}

@[simp] theorem refreshLine_line : s.refreshLine.line = s.line := rfl

@[simp] theorem refreshLine_cursor : s.refreshLine.cursor = s.cursor := rfl

@[simp] theorem holding_line : (s.holding before after).line = before ++ after := rfl

@[simp] theorem holding_cursor : (s.holding before after).cursor = before.length := rfl

/-- In every state that a run reaches, the cursor is between two texts. -/
theorem Placed.holding (h : s.Placed) :
    s.holding (s.line.take s.cursor.toNat) (s.line.drop s.cursor.toNat) = s := by
  have hnonneg := h.nonneg
  have hle := h.le_length
  have hcursor : ((s.line.take s.cursor.toNat).length : ℤ) = s.cursor := by
    rw [List.length_take]
    omega
  unfold Interface.holding
  rw [List.take_append_drop, hcursor]

theorem sub_before : sub (before ++ after) 1 before.length = before := by
  rw [sub_one _ (by omega), Int.toNat_natCast, List.take_left]

theorem subFrom_after : subFrom (before ++ after) (before.length + 1) = after := by
  have hskip : ((before.length : ℤ) + 1).toNat - 1 = before.length := by omega
  rw [subFrom_eq_drop _ (by omega), hskip, List.drop_left]

/-- The state after a deletion. -/
def edited (s : Interface) (line : Str) (cursor : ℤ) : Interface :=
  { s with line, cursor }.refreshLine

@[simp] theorem edited_line (line : Str) (cursor : ℤ) : (s.edited line cursor).line = line := rfl

@[simp] theorem edited_cursor (line : Str) (cursor : ℤ) : (s.edited line cursor).cursor = cursor := rfl

theorem deleteLeft_holding (s : Interface) (kept after : Str) (c : Char) :
    (s.holding (kept ++ [c]) after).deleteLeft =
      (s.holding (kept ++ [c]) after).edited (kept ++ after) kept.length := by
  have hinside : 0 < (s.holding (kept ++ [c]) after).cursor ∧
      0 < (s.holding (kept ++ [c]) after).line.length := by
    simp only [holding_cursor, holding_line, List.length_append, List.length_singleton]
    omega
  have hcursor : ((kept ++ [c]).length : ℤ) - 1 = kept.length := by
    simp only [List.length_append, List.length_singleton]
    omega
  have hfront : sub (kept ++ [c] ++ after) 1 kept.length = kept := by
    rw [List.append_assoc, sub_before]
  rw [deleteLeft, if_pos hinside, holding_cursor, holding_line, hcursor, hfront, subFrom_after]
  rfl

theorem deleteRight_holding (s : Interface) (before after : Str) :
    (s.holding before after).deleteRight =
      (s.holding before after).edited (before ++ after.drop 1) before.length := by
  have hskip : ((before.length : ℤ) + 2).toNat - 1 = before.length + 1 := by omega
  have hrest : subFrom (before ++ after) (before.length + 2) = after.drop 1 := by
    rw [subFrom_eq_drop _ (by omega), hskip, ← List.drop_drop, List.drop_left]
  rw [deleteRight, holding_line, holding_cursor, sub_before, hrest]
  rfl

/-- Ctrl-W does nothing at the start of the line. -/
theorem deleteWordLeft_start (s : Interface) (after : Str) :
    (s.holding [] after).deleteWordLeft = s.holding [] after := if_neg (by simp)

theorem holding_cursor_pos (hbefore : before ≠ []) : 0 < (s.holding before after).cursor := by
  have hpos := List.length_pos_of_ne_nil hbefore
  simp only [holding_cursor]
  omega

theorem deleteWordLeft_none (s : Interface) (after : Str) (hbefore : before ≠ [])
    (h : wordBefore before = none) :
    (s.holding before after).deleteWordLeft = (s.holding before after).edited [] 0 := by
  rw [deleteWordLeft, if_pos (holding_cursor_pos hbefore), holding_line, holding_cursor, sub_before]
  dsimp only
  rw [h]
  rfl

theorem deleteWordLeft_some (s : Interface) (after : Str) {word : Str} (hbefore : before ≠ [])
    (h : wordBefore before = some word) (hlength : word.length ≤ before.length) :
    (s.holding before after).deleteWordLeft =
      (s.holding before after).edited (before.take (before.length - word.length) ++ after)
        (before.take (before.length - word.length)).length := by
  have hnat : ((before.length : ℤ) - word.length).toNat = before.length - word.length := by omega
  have hkept : sub before 1 (before.length - word.length) =
      before.take (before.length - word.length) := by
    rw [sub_one _ (by omega), hnat]
  rw [deleteWordLeft, if_pos (holding_cursor_pos hbefore), holding_line, holding_cursor, sub_before]
  dsimp only
  rw [h]
  dsimp only
  rw [hkept, subFrom_after]
  rfl

theorem deleteWordRight_end (s : Interface) (before : Str) :
    (s.holding before []).deleteWordRight = s.holding before [] := if_neg (by simp)

theorem deleteWordRight_some (s : Interface) (before : Str) {word : Str} (hafter : after ≠ [])
    (h : wordAfter after = some word) :
    (s.holding before after).deleteWordRight =
      (s.holding before after).edited (before ++ after.drop word.length) before.length := by
  have hinside : (s.holding before after).cursor < (s.holding before after).line.length := by
    have hpos := List.length_pos_of_ne_nil hafter
    simp only [holding_cursor, holding_line, List.length_append]
    omega
  have hskip : ((word.length : ℤ) + 1).toNat - 1 = word.length := by omega
  rw [deleteWordRight, if_pos hinside, holding_line, holding_cursor, sub_before, subFrom_after]
  dsimp only
  rw [h]
  dsimp only
  rw [subFrom_eq_drop _ (by omega), hskip]
  rfl

/-- The character before the cursor stays. -/
theorem deleteLineLeft_holding (s : Interface) (before after : Str) :
    (s.holding before after).deleteLineLeft =
      (s.holding before after).edited (before.drop (before.length - 1) ++ after) 0 := by
  rw [deleteLineLeft, holding_line, holding_cursor, subFrom_eq_drop _ (by omega), Int.toNat_natCast,
    List.drop_append_of_le_length (by omega)]
  rfl

theorem deleteLineRight_holding (s : Interface) (before after : Str) :
    (s.holding before after).deleteLineRight = (s.holding before after).edited before before.length := by
  rw [deleteLineRight, holding_line, holding_cursor, sub_before]
  rfl

end Interface

namespace Deletion

open Interface

/-- The line and the cursor that a deletion leaves. -/
def Works (d : Deletion) (s : Interface) (before after : Str) : Prop :=
  d.Meets before after ((s.holding before after).delete d).line ((s.holding before after).delete d).cursor

theorem works_left (s : Interface) (before after : Str) : left.Works s before after := by
  unfold Works delete
  rcases List.eq_nil_or_concat' before with rfl | ⟨kept, c, rfl⟩
  · have hsame : (s.holding [] after).deleteLeft = s.holding [] after := if_neg (by simp)
    have hnone : left.Takes [] [] := by simp [Takes]
    rw [hsame]
    exact meets_start rfl hnone after
  · rw [deleteLeft_holding]
    refine (meets_left rfl rfl after).mpr ?_
    simp only [Takes, List.length_append, List.length_reverse, List.length_singleton]
    omega

theorem works_right (s : Interface) (before after : Str) : right.Works s before after := by
  have hafter : after = after.take 1 ++ after.drop 1 := (List.take_append_drop 1 after).symm
  unfold Works delete
  rw [deleteRight_holding]
  refine (meets_right rfl hafter before).mpr ?_
  simp only [Takes, List.length_take, List.length_append, List.length_drop]
  omega

theorem works_lineRight (s : Interface) (before after : Str) : lineRight.Works s before after := by
  have hmeets : lineRight.Meets before after (before ++ []) before.length :=
    (meets_right rfl (List.append_nil after).symm before).mpr rfl
  unfold Works delete
  rw [deleteLineRight_holding]
  rw [List.append_nil] at hmeets
  exact hmeets

/-- The slice of `_deleteLineLeft` begins one character too early, unless nothing is before the
cursor. -/
theorem works_lineLeft_iff (s : Interface) (before after : Str) :
    lineLeft.Works s before after ↔ before = [] := by
  unfold Works delete
  rw [deleteLineLeft_holding]
  constructor
  · rintro ⟨kept, segment, -, hline, hcursor, -⟩
    have hkept : kept = [] := by
      rw [edited_cursor] at hcursor
      exact List.length_eq_zero_iff.mp (by omega)
    have hlength := congrArg List.length hline
    rw [edited_line, hkept] at hlength
    simp only [List.length_append, List.length_drop, List.length_nil] at hlength
    exact List.length_eq_zero_iff.mp (by omega)
  · rintro rfl
    have hnone : lineLeft.Takes [] [] := rfl
    exact meets_start rfl hnone after

/-- The word before the cursor is deleted when no blanks are between, and only then: the command goes
back by the length of the word alone. When there are only blanks it clears the line. -/
theorem works_wordLeft_iff (s : Interface) (before after : Str) :
    wordLeft.Works s before after ↔ wordLeft.Fits before after := by
  unfold Works delete
  by_cases hempty : before = []
  · subst hempty
    have hnone : wordLeft.Takes [] [] := by simp [Takes]
    rw [deleteWordLeft_start]
    exact iff_of_true (meets_start rfl hnone after) (.inl (by simp))
  have hlast : before.getLast? = before.reverse.head? := by rw [List.head?_reverse]
  by_cases hblank : ∀ c ∈ before, kind c = .blank
  · rw [deleteWordLeft_none s after hempty (wordBefore_of_blank hblank)]
    constructor
    · rintro ⟨kept, segment, -, hline, -⟩
      exact .inr ⟨hblank, (List.append_eq_nil_iff.mp hline.symm).2⟩
    · rintro (hend | ⟨-, rfl⟩)
      · have hmem := List.getLast_mem hempty
        exact absurd (hblank _ hmem) (hend _ (List.getLast?_eq_some_getLast hempty))
      · refine (meets_left rfl (List.nil_append before).symm []).mpr ?_
        rintro ⟨c, hc, hne⟩
        exact absurd (hblank c (by simpa using hc)) hne
  · have hword : ∃ c ∈ before.reverse, kind c ≠ .blank := by simpa using hblank
    obtain ⟨gap, word, more, k, h⟩ := exists_leads hword
    have hlength : gap.length + (word.length + more.length) = before.length := by
      have hle := congrArg List.length h.eq
      simpa using hle.symm
    rw [deleteWordLeft_some s after hempty (wordBefore_of_leads h) (by rw [List.length_reverse]; omega)]
    obtain ⟨kept, segment, hsplit, hkept, hsegment⟩ : ∃ kept segment, before = kept ++ segment ∧
        kept = before.take (before.length - word.reverse.length) ∧ segment.length = word.length := by
      refine ⟨_, _, (List.take_append_drop _ _).symm, rfl, ?_⟩
      simp only [List.length_reverse, List.length_drop]
      omega
    have hreverse : before.reverse = segment.reverse ++ kept.reverse := by
      rw [hsplit, List.reverse_append]
    rw [← hkept]
    calc _ ↔ TakesWord segment.reverse kept.reverse := by
          refine (meets_left rfl hsplit after).trans ?_
          simp only [Takes, ← hreverse, hword, true_implies]
      _ ↔ gap = [] := takesWord_length_iff (hreverse ▸ h) (by rw [List.length_reverse, hsegment])
      _ ↔ wordLeft.Fits before after := by
          simp only [Fits, hlast, hblank, false_and, or_false]
          exact h.head_iff.symm

/-- The word behind the cursor is deleted when no blanks are between, and no more than this word when
the signs and blanks from the cursor on end with blanks only. -/
theorem works_wordRight_iff (s : Interface) (before after : Str) :
    wordRight.Works s before after ↔ wordRight.Fits before after := by
  unfold Works delete
  by_cases hempty : after = []
  · subst hempty
    have hmeets : wordRight.Meets before [] (before ++ []) before.length :=
      (meets_right rfl (List.nil_append []).symm before).mpr (by simp [Takes])
    rw [deleteWordRight_end]
    exact iff_of_true hmeets (.inl (by simp))
  by_cases hblank : ∀ c ∈ after, kind c = .blank
  · rw [deleteWordRight_some s before hempty (wordAfter_of_blank hempty hblank)]
    have hmeets : wordRight.Meets before after (before ++ after.drop after.length) before.length := by
      refine (meets_right rfl (List.take_append_drop after.length after).symm before).mpr ?_
      rintro ⟨c, hc, hne⟩
      rw [List.take_append_drop] at hc
      exact absurd (hblank c hc) hne
    exact iff_of_true hmeets (.inl hblank)
  · have hword : ∃ c ∈ after, kind c ≠ .blank := by simpa using hblank
    obtain ⟨gap, word, more, k, h⟩ := exists_leads hword
    have hmeets {segment rest : Str} (hsplit : after = segment ++ rest) :
        wordRight.Meets before after (before ++ after.drop segment.length) before.length ↔
          ∃ tail, segment = gap ++ (word ++ tail) ∧ ∀ c ∈ tail, kind c = .blank := by
      have hdrop : after.drop segment.length = rest := by rw [hsplit, List.drop_left]
      rw [hdrop, meets_right rfl hsplit before, ← takesWord_iff (hsplit ▸ h)]
      simp only [Takes, ← hsplit, hword, true_implies]
    rw [deleteWordRight_some s before hempty (wordAfter_of_leads h), edited_line, edited_cursor]
    simp only [Fits, hblank, false_or, h.head_iff]
    by_cases hgap : gap = []
    · subst hgap
      rw [if_neg (not_not.mpr rfl), and_iff_right rfl]
      cases k with
      | blank => exact absurd rfl h.kind_ne
      | sign =>
        rw [if_pos rfl, hmeets (List.takeWhile_append_dropWhile (p := (!·.isAlphanum))).symm,
          h.behind_of_sign, h.others_of_sign]
        constructor
        · rintro ⟨tail, htail, hall⟩
          rw [List.nil_append, List.append_cancel_left_eq] at htail
          exact htail ▸ hall
        · exact fun hall => ⟨_, rfl, hall⟩
      | letter =>
        have hsplit : after = word ++ more.takeWhile isSpace ++ more.dropWhile isSpace := by
          rw [List.append_assoc, List.takeWhile_append_dropWhile, h.eq, List.nil_append]
        rw [if_neg nofun, hmeets hsplit, h.others_of_letter]
        refine iff_of_true ⟨more.takeWhile isSpace, rfl, fun c hc => ?_⟩ (by simp)
        simpa [isSpace_eq] using List.mem_takeWhile_imp hc
    · simp only [hgap, ne_eq, not_false_eq_true, if_true, false_and]
      refine iff_of_false ?_ not_false
      rw [hmeets h.eq]
      rintro ⟨tail, htail, -⟩
      have hboth : word = [] ∧ tail = [] := by simpa using htail
      exact h.nonempty hboth.1

/-- Exactly when a deletion deletes what it should: always for backspace, delete and
delete-line-right, and under the conditions of `Fits` for the three others. -/
theorem works_iff (s : Interface) (before after : Str) (d : Deletion) :
    d.Works s before after ↔ d.Fits before after := by
  cases d with
  | left => exact iff_of_true (works_left s before after) trivial
  | right => exact iff_of_true (works_right s before after) trivial
  | wordLeft => exact works_wordLeft_iff s before after
  | wordRight => exact works_wordRight_iff s before after
  | lineLeft => exact works_lineLeft_iff s before after
  | lineRight => exact iff_of_true (works_lineRight s before after) trivial

/-- Delete-line-left between two characters leaves both on the line. -/
theorem works_broken :
    ¬ ∀ (s : Interface) (before after : Str) (d : Deletion), d.Works s before after := by
  intro h
  have hlineLeft := h (opened (some 80)) ['a'] ['b'] .lineLeft
  rw [works_lineLeft_iff] at hlineLeft
  exact absurd hlineLeft (by simp)

end Deletion

end LuaNode.Readline
