import LuaNode.Readline.Interface

/-!
# What the line editor does to its input

Whatever the interface does, its input goes through a run of `ReadStream`: the interface only pauses,
resumes and sets the mode. The completion of TAB is such a pause with a resume, and when the
completer answers at once both fall into the data event that brought the TAB.
-/

namespace LuaNode.Readline.Interface

open Tty

variable {s : Interface}

/-! ### Commands that leave the input alone -/

@[simp] theorem put_input (written : List Written) : (s.put written).input = s.input := rfl

@[simp] theorem raise_input (message : Str) : (s.raise message).input = s.input := rfl

@[simp] theorem call_input (c : UserCall) (frame : Frame) : (s.call c frame).input = s.input := rfl

@[simp] theorem refreshLine_input : s.refreshLine.input = s.input := rfl

@[simp] theorem setPrompt_input (prompt : Str) (length : Option ℤ) :
    (s.setPrompt prompt length).input = s.input := rfl

@[simp] theorem showEntry_input : s.showEntry.input = s.input := rfl

@[simp] theorem moveCursor_input (dx : Distance) : (s.moveCursor dx).input = s.input := by
  unfold moveCursor
  dsimp only
  split
  · split_ifs <;> rfl
  · rfl

@[simp] theorem insertString_input (c : Str) : (s.insertString c).input = s.input := by
  unfold insertString
  dsimp only
  split_ifs <;> simp

@[simp] theorem wordLeft_input : s.wordLeft.input = s.input := by
  unfold wordLeft
  split_ifs
  · split <;> simp
  · rfl

@[simp] theorem wordRight_input : s.wordRight.input = s.input := by
  unfold wordRight
  split_ifs
  · split <;> simp
  · rfl

@[simp] theorem deleteLeft_input : s.deleteLeft.input = s.input := by
  unfold deleteLeft
  split_ifs <;> simp

@[simp] theorem deleteRight_input : s.deleteRight.input = s.input := rfl

@[simp] theorem deleteWordLeft_input : s.deleteWordLeft.input = s.input := by
  unfold deleteWordLeft
  split_ifs
  · dsimp only
    split <;> simp
  · rfl

@[simp] theorem deleteWordRight_input : s.deleteWordRight.input = s.input := by
  unfold deleteWordRight
  split_ifs
  · dsimp only
    split <;> simp
  · rfl

@[simp] theorem deleteLineLeft_input : s.deleteLineLeft.input = s.input := rfl

@[simp] theorem deleteLineRight_input : s.deleteLineRight.input = s.input := rfl

@[simp] theorem clearline_input : s.clearline.input = s.input := by
  simp [clearline]

@[simp] theorem onLine_input (line : Str) (frame : Frame) :
    (s.onLine line frame).input = s.input := by
  unfold onLine
  split_ifs <;> simp

@[simp] theorem addHistory_input : s.addHistory.1.input = s.input := by
  unfold addHistory
  split_ifs <;> rfl

@[simp] theorem enterLine_input (frame : Frame) : (s.enterLine frame).input = s.input := by
  simp [enterLine]

@[simp] theorem historyNext_input : s.historyNext.input = s.input := by
  unfold historyNext
  split_ifs <;> simp

@[simp] theorem historyPrev_input : s.historyPrev.input = s.input := by
  unfold historyPrev
  split_ifs <;> simp

@[simp] theorem listCompletions_input (completions : List Str) :
    (s.listCompletions completions).input = s.input := by
  unfold listCompletions
  dsimp only
  split_ifs <;> simp

@[simp] theorem apply_input (completion : Completion) : (s.apply completion).input = s.input := by
  unfold apply
  split
  · rfl
  · rfl
  · rfl
  · rfl
  · split <;> simp
  · dsimp only
    split
    · simp
    · split_ifs <;> simp
    · simp

@[simp] theorem showPrompt_input (preserveCursor : Bool) :
    (s.showPrompt preserveCursor).input = s.input := by
  unfold showPrompt
  split_ifs <;> rfl

@[simp] theorem paste_input (lines : List Str) : (s.paste lines).input = s.input := by
  rcases lines with _ | ⟨line, _ | ⟨next, rest⟩⟩ <;> simp [paste]

/-! ### Commands that call the input -/

/-- The input has come from `a` by a run of the stream. -/
def Follows (a : ReadStream) (s : Interface) : Prop :=
  ∃ es, s.input = run ReadStream.step a es

variable {a : ReadStream}

theorem Follows.same (h : Follows a s) {t : Interface} (hinput : t.input = s.input) :
    Follows a t := by
  obtain ⟨es, hes⟩ := h
  exact ⟨es, hinput.trans hes⟩

theorem Follows.next (h : Follows a s) {t : Interface} {e : ReadEvent}
    (hinput : t.input = s.input.step e) : Follows a t := by
  obtain ⟨es, hes⟩ := h
  refine ⟨es ++ [e], ?_⟩
  rw [run_append, ← hes, hinput]
  rfl

theorem Follows.onInput (h : Follows a s) {e : ReadEvent} {r : ReadStream × Option Str}
    (hr : r.1 = s.input.step e) {next : Interface → Interface}
    (hnext : ∀ t : Interface, Follows a t → Follows a (next t)) : Follows a (s.onInput r next) := by
  have hcalled : Follows a { s with input := r.1 } := h.next hr
  obtain ⟨input, _ | message⟩ := r
  · exact hnext _ hcalled
  · exact hcalled.same rfl

theorem Follows.pauseThen (h : Follows a s) {next : Interface → Interface}
    (hnext : ∀ t : Interface, Follows a t → Follows a (next t)) (frame : Frame) :
    Follows a (s.pauseThen frame next) := by
  unfold Interface.pauseThen
  split_ifs
  · exact hnext s h
  · exact h.onInput (e := .pause) rfl fun t ht => ht.same rfl

theorem Follows.resumeThen (h : Follows a s) {next : Interface → Interface}
    (hnext : ∀ t : Interface, Follows a t → Follows a (next t)) (frame : Frame) :
    Follows a (s.resumeThen frame next) := by
  unfold Interface.resumeThen
  split_ifs
  · exact h.onInput (e := .resume) rfl fun t ht => ht.same rfl
  · exact hnext s h

theorem Follows.setRawMode (h : Follows a s) {next : Interface → Interface}
    (hnext : ∀ t : Interface, Follows a t → Follows a (next t)) (mode : Bool) :
    Follows a (s.setRawMode mode next) :=
  h.onInput (e := .setRawMode mode) rfl hnext

theorem Follows.call (h : Follows a s) (c : UserCall) (frame : Frame) :
    Follows a (s.call c frame) := h.same rfl

theorem Follows.finishClose (h : Follows a s) : Follows a s.finishClose := h.same rfl

theorem Follows.raise (h : Follows a s) (message : Str) : Follows a (s.raise message) := h.same rfl

theorem Follows.refreshLine (h : Follows a s) : Follows a s.refreshLine := h.same rfl

theorem Follows.close (h : Follows a s) : Follows a s.close := by
  unfold Interface.close
  split_ifs
  · exact h
  · exact h.setRawMode (fun t ht => ht.pauseThen (fun u hu => hu.finishClose) _) _

theorem Follows.tabComplete (h : Follows a s) : Follows a s.tabComplete :=
  h.pauseThen (fun _ ht => ht.call _ _) _

theorem Follows.stop (h : Follows a s) : Follows a s.stop :=
  h.setRawMode (fun _ ht => ht.raise _) _

theorem Follows.finishContinue (h : Follows a s) : Follows a s.finishContinue :=
  h.setRawMode (fun _ ht => ht.refreshLine) _

theorem Follows.sigcont (h : Follows a s) : Follows a s.sigcont := by
  unfold Interface.sigcont
  split_ifs
  · exact h.finishContinue
  · exact h.pauseThen (fun _ ht => ht.call _ _) _

theorem Follows.promptUser (h : Follows a s) (preserveCursor : Bool) :
    Follows a (s.promptUser preserveCursor) :=
  h.resumeThen (fun _ ht => ht.same (by simp)) _

theorem Follows.question (h : Follows a s) (query : Str) : Follows a (s.question query) := by
  unfold Interface.question
  split_ifs
  · exact h.promptUser _
  · have hasked : Follows a { { s with oldPrompt := s.prompt }.setPrompt query none with
        hasQuestion := true } := h.same rfl
    exact hasked.promptUser _

theorem Follows.ctrlKey (h : Follows a s) (name : KeyName) : Follows a (s.ctrlKey name) := by
  cases name with
  | c =>
    simp only [Interface.ctrlKey]
    split_ifs
    · exact h.same rfl
    · exact h.close
  | d =>
    simp only [Interface.ctrlKey]
    split_ifs
    · exact h.close
    · exact h.same rfl
    · exact h
  | z =>
    simp only [Interface.ctrlKey]
    split_ifs
    · exact h.same rfl
    · have hadded : Follows a { s with sigcontListeners := s.sigcontListeners + 1 } := h.same rfl
      exact hadded.stop
  | _ => exact h.same (by simp [Interface.ctrlKey])

theorem Follows.plainKey (h : Follows a s) (text : LuaValue) (name : KeyName) :
    Follows a (s.plainKey text name) := by
  unfold Interface.plainKey
  split
  case h_4 => exact h.tabComplete
  case h_11 => split <;> exact h.same (by simp)
  all_goals exact h.same (by simp)

theorem Follows.ttyWrite (h : Follows a s) (text : LuaValue) (key : Key) :
    Follows a (s.ttyWrite text key) := by
  unfold Interface.ttyWrite
  split_ifs
  · exact h
  · exact h.same rfl
  · exact h.same rfl
  · exact h
  · exact h.ctrlKey _
  · refine h.same ?_
    cases key.name <;> simp [metaKey]
  · exact h.plainKey _ _

theorem Follows.proceed (h : Follows a s) (frame : Frame) : Follows a (s.proceed frame) := by
  cases frame with
  | writing text key => exact h.ttyWrite text key
  | stopping => exact h.stop
  | continued => exact h.finishContinue
  | _ => exact h.same (by simp [Interface.proceed, callCompleter, Interface.finishClose])

theorem Follows.returned (h : Follows a s) : Follows a s.returned := by
  unfold Interface.returned
  cases s.frames with
  | nil => exact h
  | cons frame frames =>
    have hpopped : Follows a { s with frames } := h.same rfl
    exact hpopped.proceed frame

theorem Follows.act (h : Follows a s) (e : Event) : Follows a (s.act e) := by
  cases e with
  | write text key => exact h.resumeThen (fun _ ht => ht.ttyWrite _ _) _
  | keypress text key => exact h.ttyWrite text key
  | prompt preserveCursor => exact h.promptUser preserveCursor
  | question query => exact h.question query
  | setPrompt prompt length => exact h.same rfl
  | pause => exact h.pauseThen (fun _ ht => ht) _
  | resume => exact h.resumeThen (fun _ ht => ht) _
  | close => exact h.close
  | answer completion =>
    simp only [Interface.act]
    split_ifs
    · exact h.resumeThen (fun _ ht => ht.same (by simp)) _
    · exact h
  | resize columns => exact h.same rfl
  | listen sigint sigstp => exact h.same rfl
  | sigcont =>
    simp only [Interface.act]
    split_ifs
    · exact h
    · have htaken : Follows a { s with sigcontListeners := s.sigcontListeners - 1 } := h.same rfl
      exact htaken.sigcont
  | input e =>
    simp only [Interface.act]
    split_ifs
    · exact h
    · exact h.next rfl
  | returned => exact h.returned
  | threw message => exact h.same rfl
  | caught calls => exact h

theorem Follows.step (h : Follows a s) (e : Event) : Follows a (s.step e) := by
  unfold Interface.step
  split
  · exact h.act _
  · exact h.same rfl
  · exact h

/-- The input of a run of the interface is that of a run of the stream. -/
theorem input_run (columns : Option ℕ) (es : List Event) :
    ∃ rs, (run step (opened columns) es).input = run ReadStream.step ReadStream.opened rs :=
  run_invariant (I := Follows ReadStream.opened) (fun _ e h => h.step e)
    ⟨[.setRawMode true, .resume], rfl⟩ es

/-! ### TAB -/

def tabKey : Key := ⟨.tab, false, false, false⟩

/-- The data event of a TAB whose completer answers at once and finds nothing. -/
def tabEvent : List Event :=
  [.input (.completed (some ['\t'])), .keypress (.string ['\t']) tabKey, .returned, .answer .nothing,
    .returned, .returned, .input .delivered]

/-- However the editor stands, after such an event two reads are outstanding. -/
theorem tab_second_read (hstatus : s.status = .running) (hframes : s.frames = [])
    (hpaused : s.paused = false)
    (hinput : s.input.readable = true ∧ s.input.paused = false ∧ s.input.hasHandle = true ∧
      s.input.delivering = false ∧ s.input.pendingReads = 1) :
    (run step s tabEvent).input.pendingReads = 2 := by
  obtain ⟨hreadable, hflag, hhandle, hidle, hone⟩ := hinput
  simp [run, tabEvent, step, act, ofLoop, hstatus, hframes, hpaused, ReadStream.step, hhandle, hidle,
    hone, ReadStream.readCallback, ttyWrite, tabKey, plainKey, tabComplete, pauseThen, onInput,
    ReadStream.pause, hflag, hreadable, call, returned, proceed, callCompleter, isCompleter, answer,
    resumeThen, ReadStream.resume, apply, ReadStream.afterData, ReadStream.read]

end LuaNode.Readline.Interface
