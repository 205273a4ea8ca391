import LuaNode.Library.Lines
import LuaNode.Library.Runs
import LuaNode.Library.Substring
import LuaNode.Library.Words

/-!
# Lines of an input that is no terminal

`_normalWrite` splits a chunk that contains a newline, with what is left of the chunks before, into its runs
of characters other than CR and LF, and hands all of them on as lines: a last one that has no end
yet, too, and none for an empty line.
-/

namespace LuaNode.Readline

/-- The interface as `_normalWrite` sees it. -/
structure LineReader where
  lineBuffer : Option Str
  /-- what `_onLine` has been called with -/
  handedOn : List Str

namespace LineReader

def opened : LineReader := ⟨none, []⟩

def normalWrite (s : LineReader) : Option Str → LineReader
  | none => s
  | some b =>
    let str := match s.lineBuffer with
      | some begun => begun ++ b
      | none => b
    if '\n' ∈ str then
      { lineBuffer := none
        handedOn := s.handedOn ++ (textLines str).map fun line => line ++ ['\n'] }
    else { s with lineBuffer := some str }

end LineReader

/-! ### What the lines are -/

/-- A line without the CR of CRLF. -/
def withoutCR (line : Str) : Str := if line.getLast? = some '\r' then line.dropLast else line

/-- The lines of an input that are ended, as they should be handed on. -/
def endedLines (input : Str) : List Str :=
  (completeLines '\n' [] input).map fun line => withoutCR line ++ ['\n']

/-- Neither empty nor with a CR that is not at its end. -/
def PlainLine (line : Str) : Prop := withoutCR line ≠ [] ∧ '\r' ∉ withoutCR line

section TextLines

theorem textLines_eq_words (s : Str) : textLines s = words (fun c => c = '\r' || c = '\n') s := rfl

theorem textLines_append (s t : Str) {c : Char} (hc : c = '\r' ∨ c = '\n') :
    textLines (s ++ c :: t) = textLines s ++ textLines t :=
  words_append_cons s t (by simpa using hc)

theorem textLines_of_plain {s : Str} (hcr : '\r' ∉ s) (hlf : '\n' ∉ s) :
    textLines s = if s = [] then [] else [s] := by
  rw [textLines_eq_words, words_of_plain]
  intro c hc
  have hne : c ≠ '\r' ∧ c ≠ '\n' := ⟨ne_of_mem_of_not_mem hc hcr, ne_of_mem_of_not_mem hc hlf⟩
  simp [hne]

/-- The lines of a text are those of its lines. -/
theorem textLines_eq (begun s : Str) :
    textLines (begun ++ s) =
      (completeLines '\n' begun s).flatMap textLines ++ textLines (unfinished '\n' begun s) := by
  induction s generalizing begun with
  | nil => simp
  | cons c s ih =>
    by_cases hc : c = '\n'
    · have hrest := ih []
      rw [List.nil_append] at hrest
      rw [hc, textLines_append _ _ (.inr rfl), hrest]
      simp [completeLines, unfinished]
    · have hrest := ih (begun ++ [c])
      rw [List.append_assoc, List.singleton_append] at hrest
      simp [completeLines, unfinished, hc, hrest]

theorem mem_textLines {s line : Str} (h : line ∈ textLines s) : line ≠ [] ∧ '\r' ∉ line := by
  obtain ⟨hne, hplain⟩ := mem_words h
  refine ⟨hne, fun hcr => ?_⟩
  have hsep := hplain '\r' hcr
  simp at hsep

/-- A plain line with its end is one line. -/
theorem textLines_plainLine {line : Str} (hlf : '\n' ∉ line) (h : PlainLine line) :
    textLines line = [withoutCR line] := by
  obtain ⟨hne, hcr⟩ := h
  have hlf' : '\n' ∉ withoutCR line := by
    unfold withoutCR
    split_ifs
    · exact fun hmem => hlf (List.mem_of_mem_dropLast hmem)
    · exact hlf
  have hplain : textLines (withoutCR line) = [withoutCR line] := by
    rw [textLines_of_plain hcr hlf', if_neg hne]
  by_cases hlast : line.getLast? = some '\r'
  · have hline : line = withoutCR line ++ ['\r'] := by
      rw [withoutCR, if_pos hlast]
      exact (List.dropLast_append_getLast? '\r' hlast).symm
    calc textLines line = textLines (withoutCR line ++ '\r' :: []) := congrArg textLines hline
      _ = textLines (withoutCR line) ++ textLines [] := textLines_append _ _ (.inl rfl)
      _ = [withoutCR line] := by rw [hplain, textLines_of_plain (by simp) (by simp)]; rfl
  · have hline : withoutCR line = line := if_neg hlast
    rw [hline] at hplain ⊢
    exact hplain

/-- The runs of characters are the ended lines exactly when all these are plain. -/
theorem flatMap_textLines_iff {lines : List Str} (hlf : ∀ line ∈ lines, '\n' ∉ line) :
    lines.flatMap textLines = lines.map withoutCR ↔ ∀ line ∈ lines, PlainLine line := by
  constructor
  · intro hsame line hline
    have hmem : withoutCR line ∈ lines.flatMap textLines := by
      rw [hsame]
      exact List.mem_map_of_mem hline
    obtain ⟨other, -, hother⟩ := List.mem_flatMap.mp hmem
    exact mem_textLines hother
  · intro hplain
    induction lines with
    | nil => rfl
    | cons line lines ih =>
      obtain ⟨hline, hlines⟩ := List.forall_mem_cons.mp hplain
      obtain ⟨hfirst, hrest⟩ := List.forall_mem_cons.mp hlf
      rw [List.flatMap_cons, List.map_cons, textLines_plainLine hfirst hline, ih hrest hlines]
      rfl

end TextLines

/-! ### Feeding -/

/-- A reader, and all that it has been fed. -/
structure Fed where
  reader : LineReader
  input : Str

namespace Fed

def opened : Fed := ⟨.opened, []⟩

def step (s : Fed) (chunk : Str) : Fed := ⟨s.reader.normalWrite (some chunk), s.input ++ chunk⟩

/-- The ended lines of the input have been handed on, and the rest is kept. -/
structure Split (s : Fed) : Prop where
  handedOn : s.reader.handedOn = endedLines s.input
  kept : s.reader.lineBuffer.getD [] = unfinished '\n' [] s.input

/-- A chunk with a newline ends with one, and all lines that are ended with it are plain. -/
def Fits (s : Fed) (chunk : Str) : Prop :=
  '\n' ∈ chunk → chunk.getLast? = some '\n' ∧
    ∀ line ∈ completeLines '\n' (unfinished '\n' [] s.input) chunk, PlainLine line

theorem endedLines_append (input chunk : Str) :
    endedLines (input ++ chunk) = endedLines input ++
      (completeLines '\n' (unfinished '\n' [] input) chunk).map
        fun line => withoutCR line ++ ['\n'] := by
  rw [endedLines, completeLines_append, List.map_append, endedLines]

/-- The runs of an ended text are its lines exactly when all of these are plain. -/
theorem textLines_ended_iff {begun chunk : Str} (hbegun : '\n' ∉ begun)
    (hrest : unfinished '\n' begun chunk = []) :
    (textLines (begun ++ chunk)).map (fun line => line ++ ['\n']) =
        (completeLines '\n' begun chunk).map (fun line => withoutCR line ++ ['\n']) ↔
      ∀ line ∈ completeLines '\n' begun chunk, PlainLine line := by
  have hlines : textLines (begun ++ chunk) =
      (completeLines '\n' begun chunk).flatMap textLines := by
    rw [textLines_eq, hrest, textLines_of_plain (by simp) (by simp)]
    simp
  have hinj : Function.Injective fun line : Str => line ++ ['\n'] :=
    fun _ _ => List.append_cancel_right
  rw [hlines]
  calc _ ↔ ((completeLines '\n' begun chunk).flatMap textLines).map (fun line => line ++ ['\n']) =
        ((completeLines '\n' begun chunk).map withoutCR).map (fun line => line ++ ['\n']) := by
        rw [List.map_map]
        rfl
    _ ↔ (completeLines '\n' begun chunk).flatMap textLines =
        (completeLines '\n' begun chunk).map withoutCR :=
      (List.map_injective_iff.mpr hinj).eq_iff
    _ ↔ _ := flatMap_textLines_iff fun line hline => not_mem_completeLines hbegun hline

theorem split_step_iff {s : Fed} (h : s.Split) (chunk : Str) : (s.step chunk).Split ↔ s.Fits chunk := by
  have hkept : '\n' ∉ unfinished '\n' [] s.input := not_mem_unfinished List.not_mem_nil _
  have hstr : (match s.reader.lineBuffer with
      | some begun => begun ++ chunk
      | none => chunk) = unfinished '\n' [] s.input ++ chunk := by
    rw [← h.kept]
    cases s.reader.lineBuffer <;> rfl
  by_cases hchunk : '\n' ∈ chunk
  · have hwritten : s.step chunk = ⟨⟨none, s.reader.handedOn ++
        (textLines (unfinished '\n' [] s.input ++ chunk)).map fun line => line ++ ['\n']⟩,
        s.input ++ chunk⟩ := by
      simp [step, LineReader.normalWrite, hstr, hchunk]
    have hsplit : (s.step chunk).Split ↔
        (textLines (unfinished '\n' [] s.input ++ chunk)).map (fun line => line ++ ['\n']) =
            (completeLines '\n' (unfinished '\n' [] s.input) chunk).map
              (fun line => withoutCR line ++ ['\n']) ∧
          unfinished '\n' (unfinished '\n' [] s.input) chunk = [] := by
      rw [hwritten]
      constructor
      · rintro ⟨hlines, hrest⟩
        rw [endedLines_append, ← h.handedOn] at hlines
        rw [unfinished_append] at hrest
        exact ⟨List.append_cancel_left hlines, hrest.symm⟩
      · rintro ⟨hlines, hrest⟩
        refine ⟨?_, ?_⟩
        · rw [endedLines_append, ← h.handedOn, ← hlines]
        · rw [unfinished_append, hrest]
          rfl
    have hlast : unfinished '\n' (unfinished '\n' [] s.input) chunk = [] ↔
        chunk.getLast? = some '\n' := by
      rw [unfinished_eq_nil_iff, or_iff_right]
      rintro ⟨-, rfl⟩
      cases hchunk
    simp only [hsplit, Fits, hchunk, true_implies, ← hlast]
    rw [and_comm]
    exact and_congr_right fun hrest => textLines_ended_iff hkept hrest
  · have hwritten : s.step chunk = ⟨⟨some (unfinished '\n' [] s.input ++ chunk), s.reader.handedOn⟩,
        s.input ++ chunk⟩ := by
      simp [step, LineReader.normalWrite, hstr, hchunk, hkept]
    refine iff_of_true ?_ fun hmem => absurd hmem hchunk
    rw [hwritten]
    refine ⟨?_, ?_⟩
    · rw [endedLines_append, completeLines_of_not_mem _ hchunk, List.map_nil, List.append_nil]
      exact h.handedOn
    · rw [unfinished_append, unfinished_of_not_mem _ hchunk]
      rfl

/-- In every state that the chunks lead to, the input is split. -/
def Splits (chunks : List Str) : Prop := ∀ t ∈ statesOf step opened chunks, t.Split

/-- Every chunk with a newline ends with one, and every line that is ended is plain. -/
def Clean (chunks : List Str) : Prop :=
  (∀ chunk ∈ chunks, '\n' ∈ chunk → chunk.getLast? = some '\n') ∧
    ∀ line ∈ completeLines '\n' [] chunks.flatten, PlainLine line

theorem guarded_fits_iff (s : Fed) (chunks : List Str) :
    Guarded step Fits s chunks ↔
      (∀ chunk ∈ chunks, '\n' ∈ chunk → chunk.getLast? = some '\n') ∧
        ∀ line ∈ completeLines '\n' (unfinished '\n' [] s.input) chunks.flatten, PlainLine line := by
  induction chunks generalizing s with
  | nil => simp
  | cons chunk chunks ih =>
    have hnext : (s.step chunk).input = s.input ++ chunk := rfl
    rw [guarded_cons, ih, hnext, unfinished_append, List.flatten_cons, completeLines_append]
    simp only [List.forall_mem_cons, List.mem_append, or_imp, forall_and, Fits]
    by_cases hchunk : '\n' ∈ chunk
    · simp only [hchunk, true_implies]
      tauto
    · simp [hchunk, completeLines_of_not_mem]

theorem splits_iff_clean (chunks : List Str) : Splits chunks ↔ Clean chunks := by
  have hguarded : Splits chunks ↔ Guarded step Fits opened chunks :=
    states_iff_guarded (I := fun _ => True) (fun _ _ h => h) (fun s chunk _ h => split_step_iff h chunk)
      trivial ⟨rfl, rfl⟩ chunks
  exact hguarded.trans (guarded_fits_iff opened chunks)

theorem input_run (s : Fed) (chunks : List Str) :
    (run step s chunks).input = s.input ++ chunks.flatten := by
  induction chunks generalizing s with
  | nil => simp
  | cons chunk chunks ih => simp [ih, step]

/-- The lines of an input do not depend on how it is cut, and are its ended lines with the rest kept, exactly
when no chunk has anything behind a newline but more lines and no line is empty or has a CR
within. -/
theorem chunks_split_iff (chunks : List Str) :
    (Splits chunks ∧ Splits [chunks.flatten] ∧
        (run step opened chunks).reader.handedOn =
          (run step opened [chunks.flatten]).reader.handedOn) ↔
      Clean chunks ∧ Clean [chunks.flatten] := by
  rw [← splits_iff_clean, ← splits_iff_clean]
  constructor
  · rintro ⟨hchunks, hwhole, -⟩
    exact ⟨hchunks, hwhole⟩
  · rintro ⟨hchunks, hwhole⟩
    refine ⟨hchunks, hwhole, ?_⟩
    have hparts := (hchunks _ (run_mem_statesOf ..)).handedOn
    have hone := (hwhole _ (run_mem_statesOf ..)).handedOn
    rw [hparts, hone, input_run, input_run]
    simp

/-- A chunk that ends within a line. -/
theorem chunks_split_broken :
    ¬ ∀ chunks : List Str, Splits chunks ∧ Splits [chunks.flatten] ∧
      (run step opened chunks).reader.handedOn =
        (run step opened [chunks.flatten]).reader.handedOn := by
  intro h
  have hsame := (h ["a\nb".toList, "c\n".toList]).2.2
  exact absurd hsame (by decide)

end Fed

end LuaNode.Readline
