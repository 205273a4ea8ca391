import LuaNode.Readline.Interface

/-!
# The cursor stays on the line

`Placed` is what the editing commands keep: the cursor is on the line, `historyIndex` names an entry of
the history or is -1, and the history is no longer than `kHistorySize`. It holds of every state
of a run, in the middle of a command that waits for user code too.
-/

namespace LuaNode.Readline.Interface

open Tty

/-- The cursor is on the line and `historyIndex` in the history. -/
structure Placed (s : Interface) : Prop where
  nonneg : 0 ≤ s.cursor
  le_length : s.cursor ≤ s.line.length
  index : s.historyIndex = -1 ∨ 0 ≤ s.historyIndex ∧ s.historyIndex < s.history.length
  bounded : s.history.length ≤ kHistorySize

variable {s : Interface}

/-! ### Commands that do not edit -/

theorem Placed.put (h : s.Placed) (written : List Written) : (s.put written).Placed :=
  ⟨h.nonneg, h.le_length, h.index, h.bounded⟩

theorem Placed.raise (h : s.Placed) (message : Str) : (s.raise message).Placed :=
  ⟨h.nonneg, h.le_length, h.index, h.bounded⟩

theorem Placed.call (h : s.Placed) (c : UserCall) (frame : Frame) : (s.call c frame).Placed :=
  ⟨h.nonneg, h.le_length, h.index, h.bounded⟩

theorem Placed.refreshLine (h : s.Placed) : s.refreshLine.Placed :=
  ⟨h.nonneg, h.le_length, h.index, h.bounded⟩

theorem Placed.setPrompt (h : s.Placed) (prompt : Str) (length : Option ℤ) :
    (s.setPrompt prompt length).Placed :=
  ⟨h.nonneg, h.le_length, h.index, h.bounded⟩

theorem Placed.onInput (h : s.Placed) {next : Interface → Interface}
    (hnext : ∀ t : Interface, t.Placed → (next t).Placed) (r : ReadStream × Option Str) :
    (s.onInput r next).Placed := by
  have hinput (input : ReadStream) : { s with input }.Placed :=
    ⟨h.nonneg, h.le_length, h.index, h.bounded⟩
  obtain ⟨input, _ | message⟩ := r
  · exact hnext _ (hinput input)
  · exact (hinput input).raise message

theorem Placed.pauseThen (h : s.Placed) {next : Interface → Interface}
    (hnext : ∀ t : Interface, t.Placed → (next t).Placed) (frame : Frame) :
    (s.pauseThen frame next).Placed := by
  unfold Interface.pauseThen
  split_ifs
  · exact hnext s h
  · refine h.onInput (fun t ht => ?_) _
    have hpaused : { t with paused := true }.Placed :=
      ⟨ht.nonneg, ht.le_length, ht.index, ht.bounded⟩
    exact hpaused.call _ _

theorem Placed.resumeThen (h : s.Placed) {next : Interface → Interface}
    (hnext : ∀ t : Interface, t.Placed → (next t).Placed) (frame : Frame) :
    (s.resumeThen frame next).Placed := by
  unfold Interface.resumeThen
  split_ifs
  · refine h.onInput (fun t ht => ?_) _
    have hresumed : { t with paused := false }.Placed :=
      ⟨ht.nonneg, ht.le_length, ht.index, ht.bounded⟩
    exact hresumed.call _ _
  · exact hnext s h

theorem Placed.finishClose (h : s.Placed) : s.finishClose.Placed := by
  have hclosed : { s with closed := true }.Placed := ⟨h.nonneg, h.le_length, h.index, h.bounded⟩
  exact hclosed.call _ _

theorem Placed.close (h : s.Placed) : s.close.Placed := by
  unfold Interface.close
  split_ifs
  · exact h
  · exact h.onInput (fun t ht => ht.pauseThen (fun u hu => hu.finishClose) _) _

/-! ### Moving -/

/-- After the bounds check the cursor is on the line. -/
theorem moved_mem (s : Interface) (dx : Distance) : 0 ≤ s.moved dx ∧ s.moved dx ≤ s.line.length := by
  unfold moved
  cases dx with
  | start =>
    dsimp only
    split_ifs <;> omega
  | finish => simp
  | cells dx =>
    dsimp only
    split_ifs <;> omega

/-- A move puts the cursor on the line wherever it was. -/
theorem placed_moveCursor
    (hindex : s.historyIndex = -1 ∨ 0 ≤ s.historyIndex ∧ s.historyIndex < s.history.length)
    (hbounded : s.history.length ≤ kHistorySize) (dx : Distance) : (s.moveCursor dx).Placed := by
  have hmoved : { s with cursor := s.moved dx }.Placed :=
    ⟨(s.moved_mem dx).1, (s.moved_mem dx).2, hindex, hbounded⟩
  unfold Interface.moveCursor
  dsimp only
  split
  · split_ifs
    · exact ⟨hmoved.nonneg, hmoved.le_length, hmoved.index, hmoved.bounded⟩
    · exact hmoved.refreshLine
  · exact hmoved.refreshLine

theorem Placed.moveCursor (h : s.Placed) (dx : Distance) : (s.moveCursor dx).Placed :=
  placed_moveCursor h.index h.bounded dx

theorem Placed.wordLeft (h : s.Placed) : s.wordLeft.Placed := by
  unfold Interface.wordLeft
  split_ifs
  · split
    · exact h.moveCursor _
    · exact h.raise _
  · exact h

theorem Placed.wordRight (h : s.Placed) : s.wordRight.Placed := by
  unfold Interface.wordRight
  split_ifs
  · split
    · exact h.moveCursor _
    · exact h.raise _
  · exact h

/-! ### Editing -/

/-- A new line and a new cursor on it. -/
theorem Placed.edit (h : s.Placed) {line : Str} {cursor : ℤ} (hnonneg : 0 ≤ cursor)
    (hle : cursor ≤ line.length) : { s with line, cursor }.Placed :=
  ⟨hnonneg, hle, h.index, h.bounded⟩

/-- The part of the line before the cursor. -/
theorem Placed.length_before (h : s.Placed) : ((sub s.line 1 s.cursor).length : ℤ) = s.cursor :=
  length_sub_one h.nonneg h.le_length

/-- The line up to the cursor is kept, and the cursor with it. -/
theorem Placed.keepBefore (h : s.Placed) (rest : Str) :
    { s with line := sub s.line 1 s.cursor ++ rest }.Placed := by
  have hbefore := h.length_before
  refine ⟨h.nonneg, ?_, h.index, h.bounded⟩
  simp only [List.length_append]
  omega

theorem Placed.insertString (h : s.Placed) (c : Str) : (s.insertString c).Placed := by
  have hnonneg := h.nonneg
  unfold Interface.insertString
  split_ifs with hinside
  · have hbefore := h.length_before
    refine (h.edit (by omega) ?_).refreshLine
    simp only [List.length_append]
    omega
  · have hend : { s with line := s.line ++ c, cursor := s.cursor + c.length }.Placed := by
      have hle := h.le_length
      refine h.edit (by omega) ?_
      simp only [List.length_append]
      omega
    dsimp only
    split_ifs
    · exact hend.refreshLine.moveCursor _
    · exact (hend.put _).moveCursor _

theorem Placed.deleteLeft (h : s.Placed) : s.deleteLeft.Placed := by
  unfold Interface.deleteLeft
  split_ifs with hinside
  · have hle := h.le_length
    have hbefore : ((sub s.line 1 (s.cursor - 1)).length : ℤ) = s.cursor - 1 :=
      length_sub_one (by omega) (by omega)
    refine (h.edit (by omega) ?_).refreshLine
    simp only [List.length_append]
    omega
  · exact h

theorem Placed.deleteRight (h : s.Placed) : s.deleteRight.Placed := (h.keepBefore _).refreshLine

theorem Placed.deleteWordLeft (h : s.Placed) : s.deleteWordLeft.Placed := by
  unfold Interface.deleteWordLeft
  split_ifs
  · dsimp only
    split
    · exact (h.edit le_rfl (by simp)).refreshLine
    · exact (h.edit (by omega) (by simp)).refreshLine
  · exact h

theorem Placed.deleteWordRight (h : s.Placed) : s.deleteWordRight.Placed := by
  unfold Interface.deleteWordRight
  split_ifs
  · dsimp only
    split
    · exact (h.keepBefore _).refreshLine
    · exact h.raise _
  · exact h

theorem Placed.deleteLineLeft (h : s.Placed) : s.deleteLineLeft.Placed :=
  (h.edit le_rfl (by omega)).refreshLine

theorem Placed.deleteLineRight (h : s.Placed) : s.deleteLineRight.Placed := by
  have hbefore := h.length_before
  exact Placed.refreshLine ⟨h.nonneg, hbefore.ge, h.index, h.bounded⟩

/-! ### History -/

theorem Placed.clearline
    (hindex : s.historyIndex = -1 ∨ 0 ≤ s.historyIndex ∧ s.historyIndex < s.history.length)
    (hbounded : s.history.length ≤ kHistorySize) : s.clearline.Placed := by
  have hmoved := placed_moveCursor hindex hbounded .finish
  exact ⟨le_rfl, by simp [Interface.clearline], hmoved.index, hmoved.bounded⟩

theorem Placed.onLine (h : s.Placed) (line : Str) (frame : Frame) : (s.onLine line frame).Placed := by
  unfold Interface.onLine
  split_ifs
  · refine Placed.call (Placed.setPrompt ?_ _ _) _ _
    exact ⟨h.nonneg, h.le_length, h.index, h.bounded⟩
  · exact h.call _ _

/-- `_addHistory` leaves a cursor that may be beyond the line, which `clearline` puts right. -/
theorem addHistory_bounded (h : s.Placed) :
    (s.addHistory.1.historyIndex = -1 ∨
      0 ≤ s.addHistory.1.historyIndex ∧
        s.addHistory.1.historyIndex < s.addHistory.1.history.length) ∧
      s.addHistory.1.history.length ≤ kHistorySize := by
  have hbounded := h.bounded
  unfold addHistory
  split_ifs with hline
  · exact ⟨h.index, h.bounded⟩
  · refine ⟨.inl rfl, ?_⟩
    dsimp only
    split_ifs with hfull
    · simpa using hbounded
    · omega

theorem Placed.enterLine (h : s.Placed) (frame : Frame) : (s.enterLine frame).Placed := by
  obtain ⟨hindex, hbounded⟩ := addHistory_bounded h
  exact (Placed.clearline hindex hbounded).onLine _ frame

theorem placed_showEntry (hindex : 0 ≤ s.historyIndex ∧ s.historyIndex < s.history.length)
    (hbounded : s.history.length ≤ kHistorySize) : s.showEntry.Placed :=
  Placed.refreshLine ⟨by simp, le_rfl, .inr hindex, hbounded⟩

theorem Placed.historyNext (h : s.Placed) : s.historyNext.Placed := by
  have hindex := h.index
  unfold Interface.historyNext
  split_ifs with hpositive hzero
  · refine placed_showEntry ?_ h.bounded
    dsimp only
    omega
  · exact Placed.refreshLine ⟨le_rfl, by simp, .inl rfl, h.bounded⟩
  · exact h

theorem Placed.historyPrev (h : s.Placed) : s.historyPrev.Placed := by
  have hindex := h.index
  unfold Interface.historyPrev
  split_ifs with hmore
  · refine placed_showEntry ?_ h.bounded
    dsimp only
    omega
  · exact h

/-! ### Completion -/

theorem Placed.callCompleter (h : s.Placed) : s.callCompleter.Placed := h.call _ _

theorem Placed.tabComplete (h : s.Placed) : s.tabComplete.Placed :=
  h.pauseThen (fun _ ht => ht.callCompleter) _

theorem Placed.listCompletions (h : s.Placed) (completions : List Str) :
    (s.listCompletions completions).Placed := by
  unfold Interface.listCompletions
  dsimp only
  split_ifs
  · exact ⟨h.nonneg, h.le_length, h.index, h.bounded⟩
  · exact (h.put _).put _

theorem Placed.apply (h : s.Placed) (completion : Completion) : (s.apply completion).Placed := by
  unfold Interface.apply
  split
  · exact h
  · exact h
  · exact h
  · exact h.raise _
  · split
    · exact h.raise _
    · exact (h.insertString _).refreshLine
  · have hlisted := h.listCompletions
    dsimp only
    split
    · exact (hlisted _).raise _
    · split_ifs
      · exact ((hlisted _).insertString _).refreshLine
      · exact (hlisted _).refreshLine
    · exact hlisted _

theorem Placed.showPrompt (h : s.Placed) (preserveCursor : Bool) :
    (s.showPrompt preserveCursor).Placed := by
  unfold Interface.showPrompt
  split_ifs
  · exact h.refreshLine
  · exact Placed.refreshLine ⟨le_rfl, by simp, h.index, h.bounded⟩

theorem Placed.promptUser (h : s.Placed) (preserveCursor : Bool) :
    (s.promptUser preserveCursor).Placed :=
  h.resumeThen (fun _ ht => ht.showPrompt _) _

theorem Placed.question (h : s.Placed) (query : Str) : (s.question query).Placed := by
  unfold Interface.question
  split_ifs
  · exact h.promptUser _
  · have hasked : { { s with oldPrompt := s.prompt }.setPrompt query none with
        hasQuestion := true }.Placed := ⟨h.nonneg, h.le_length, h.index, h.bounded⟩
    exact hasked.promptUser _

theorem Placed.answer (h : s.Placed) (completion : Completion) : (s.answer completion).Placed :=
  h.resumeThen (fun _ ht => ht.apply _) _

/-! ### Keys -/

theorem Placed.stop (h : s.Placed) : s.stop.Placed := h.onInput (fun _ ht => ht.raise _) _

theorem Placed.finishContinue (h : s.Placed) : s.finishContinue.Placed :=
  h.onInput (fun _ ht => ht.refreshLine) _

theorem Placed.sigcont (h : s.Placed) : s.sigcont.Placed := by
  unfold Interface.sigcont
  split_ifs
  · exact h.finishContinue
  · exact h.pauseThen (fun _ ht => ht.call _ _) _

theorem Placed.ctrlKey (h : s.Placed) (name : KeyName) : (s.ctrlKey name).Placed := by
  cases name with
  | c =>
    simp only [Interface.ctrlKey]
    split_ifs
    · exact h.call _ _
    · exact h.close
  | h => exact h.deleteLeft
  | d =>
    simp only [Interface.ctrlKey]
    split_ifs
    · exact h.close
    · exact h.deleteRight
    · exact h
  | u => exact (h.edit le_rfl (by simp)).refreshLine
  | k => exact h.deleteLineRight
  | a => exact h.moveCursor _
  | e => exact h.moveCursor _
  | b => exact h.moveCursor _
  | f => exact h.moveCursor _
  | l => exact (h.put _).refreshLine
  | n => exact h.historyNext
  | p => exact h.historyPrev
  | z =>
    simp only [Interface.ctrlKey]
    split_ifs
    · exact h.call _ _
    · exact Placed.stop ⟨h.nonneg, h.le_length, h.index, h.bounded⟩
  | w => exact h.deleteWordLeft
  | backspace => exact h.deleteWordLeft
  | delete => exact h.deleteWordRight
  | left => exact h.wordLeft
  | right => exact h.wordRight
  | _ => exact h

theorem Placed.metaKey (h : s.Placed) (name : KeyName) : (s.metaKey name).Placed := by
  cases name with
  | b => exact h.wordLeft
  | f => exact h.wordRight
  | d => exact h.deleteWordRight
  | delete => exact h.deleteWordRight
  | backspace => exact h.deleteWordLeft
  | _ => exact h

theorem Placed.paste (h : s.Placed) (lines : List Str) : (s.paste lines).Placed := by
  rcases lines with _ | ⟨line, _ | ⟨next, rest⟩⟩
  · exact h
  · exact h.insertString line
  · exact (h.insertString line).enterLine _

theorem Placed.plainKey (h : s.Placed) (text : LuaValue) (name : KeyName) :
    (s.plainKey text name).Placed := by
  unfold Interface.plainKey
  split
  · exact h.enterLine _
  · exact h.deleteLeft
  · exact h.deleteRight
  · exact h.tabComplete
  · exact h.moveCursor _
  · exact h.moveCursor _
  · exact h.moveCursor _
  · exact h.moveCursor _
  · exact h.historyPrev
  · exact h.historyNext
  · split
    · exact h.paste _
    · exact h
    · exact h
    · exact h.raise _
    · exact h.raise _

theorem Placed.ttyWrite (h : s.Placed) (text : LuaValue) (key : Key) :
    (s.ttyWrite text key).Placed := by
  unfold Interface.ttyWrite
  split_ifs
  · exact h
  · exact h.deleteLineLeft
  · exact h.deleteLineRight
  · exact h
  · exact h.ctrlKey _
  · exact h.metaKey _
  · exact h.plainKey _ _

/-! ### Runs -/

theorem Placed.proceed (h : s.Placed) (frame : Frame) : (s.proceed frame).Placed := by
  cases frame with
  | nothing => exact h
  | writing text key => exact h.ttyWrite text key
  | prompting preserveCursor => exact h.showPrompt preserveCursor
  | pasting lines => exact h.paste lines
  | completing => exact h.callCompleter
  | answering completion => exact h.apply completion
  | closing => exact h.finishClose
  | stopping => exact h.stop
  | continuing => exact h.call _ _
  | continued => exact h.finishContinue

theorem Placed.returned (h : s.Placed) : s.returned.Placed := by
  unfold Interface.returned
  cases s.frames with
  | nil => exact h
  | cons frame frames =>
    have hpopped : { s with frames }.Placed := ⟨h.nonneg, h.le_length, h.index, h.bounded⟩
    exact hpopped.proceed frame

theorem Placed.act (h : s.Placed) (e : Event) : (s.act e).Placed := by
  cases e with
  | write text key => exact h.resumeThen (fun _ ht => ht.ttyWrite _ _) _
  | keypress text key => exact h.ttyWrite text key
  | prompt preserveCursor => exact h.promptUser preserveCursor
  | question query => exact h.question query
  | setPrompt prompt length => exact h.setPrompt prompt length
  | pause => exact h.pauseThen (fun _ ht => ht) _
  | resume => exact h.resumeThen (fun _ ht => ht) _
  | close => exact h.close
  | answer completion =>
    simp only [Interface.act]
    split_ifs
    · exact h.answer completion
    · exact h
  | resize columns =>
    have hresized : { s with columns }.Placed := ⟨h.nonneg, h.le_length, h.index, h.bounded⟩
    exact hresized.raise _
  | listen sigint sigstp => exact ⟨h.nonneg, h.le_length, h.index, h.bounded⟩
  | sigcont =>
    simp only [Interface.act]
    split_ifs
    · exact h
    · have htaken : { s with sigcontListeners := s.sigcontListeners - 1 }.Placed :=
        ⟨h.nonneg, h.le_length, h.index, h.bounded⟩
      exact htaken.sigcont
  | input e =>
    simp only [Interface.act]
    split_ifs
    · exact h
    · exact ⟨h.nonneg, h.le_length, h.index, h.bounded⟩
  | returned => exact h.returned
  | threw message => exact h.raise message
  | caught calls => exact h

theorem Placed.step (h : s.Placed) (e : Event) : (s.step e).Placed := by
  unfold Interface.step
  split
  · exact h.act _
  · exact ⟨h.nonneg, h.le_length, h.index, h.bounded⟩
  · exact h

/-- In every state of every run the cursor is on the line, `historyIndex` is -1 or in the history,
and the history has at most 30 entries. -/
theorem states_placed (columns : Option ℕ) (es : List Event) :
    ∀ t ∈ statesOf step (opened columns) es, t.Placed := by
  intro t ht
  exact states_invariant (fun _ e h => h.step e)
    ⟨le_rfl, by simp [opened], .inl rfl, by simp [opened]⟩ ht

/-- Two pasted lines, of which the first one is entered. -/
theorem states_placed_paste :
    (run step (opened (some 80))
      [.write (.string "ls\ncat".toList) ⟨.absent, false, false, false⟩, .returned]).Placed :=
  states_placed (some 80) _ _ (run_mem_statesOf ..)

end LuaNode.Readline.Interface
