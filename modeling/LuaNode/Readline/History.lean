import LuaNode.Library.Runs
import LuaNode.Readline.Cursor

/-!
# Submitted lines

`_line` takes the text it hands on from the history, into which it has just put it. A `Session` keeps
beside the editor what was on the line at each call of `_line`. Handing on is the event 'line', or the
callback of a question that waits for an answer.
-/

namespace LuaNode.Readline

open Tty Interface

def UserCall.line? : UserCall → Option Str
  | .line text | .answer text => some text
  | _ => none

/-- The lines among the calls of user code. -/
def handedOn (calls : List UserCall) : List Str := calls.filterMap UserCall.line?

/-! ### Commands that hand on no line -/

/-- The history is as before, and no line has been handed on. -/
structure Quiet (s t : Interface) : Prop where
  history : t.history = s.history
  lines : handedOn t.calls = handedOn s.calls

namespace Quiet

variable {b s : Interface}

theorem refl (s : Interface) : Quiet s s := ⟨rfl, rfl⟩

theorem put (h : Quiet b s) (written : List Written) : Quiet b (s.put written) := ⟨h.history, h.lines⟩

theorem raise (h : Quiet b s) (message : Str) : Quiet b (s.raise message) := ⟨h.history, h.lines⟩

theorem call (h : Quiet b s) {c : UserCall} (hc : c.line? = none) (frame : Frame) :
    Quiet b (s.call c frame) := by
  refine ⟨h.history, ?_⟩
  have hnone : handedOn [c] = [] := by simp [handedOn, hc]
  calc handedOn (s.calls ++ [c]) = handedOn s.calls ++ handedOn [c] := List.filterMap_append
    _ = handedOn b.calls := by rw [hnone, List.append_nil, h.lines]

theorem refreshLine (h : Quiet b s) : Quiet b s.refreshLine := ⟨h.history, h.lines⟩

/-- Another line and cursor. -/
theorem edit (h : Quiet b s) (line : Str) (cursor : ℤ) :
    Quiet b { s with line, cursor }.refreshLine := ⟨h.history, h.lines⟩

theorem setPrompt (h : Quiet b s) (prompt : Str) (length : Option ℤ) :
    Quiet b (s.setPrompt prompt length) := ⟨h.history, h.lines⟩

theorem onInput (h : Quiet b s) {next : Interface → Interface}
    (hnext : ∀ t, Quiet b t → Quiet b (next t)) (r : ReadStream × Option Str) :
    Quiet b (s.onInput r next) := by
  obtain ⟨input, _ | message⟩ := r
  · exact hnext _ ⟨h.history, h.lines⟩
  · exact ⟨h.history, h.lines⟩

theorem pauseThen (h : Quiet b s) {next : Interface → Interface}
    (hnext : ∀ t, Quiet b t → Quiet b (next t)) (frame : Frame) :
    Quiet b (s.pauseThen frame next) := by
  unfold Interface.pauseThen
  split_ifs
  · exact hnext s h
  · refine h.onInput (fun t ht => ?_) _
    have hpaused : Quiet b { t with paused := true } := ⟨ht.history, ht.lines⟩
    exact hpaused.call rfl _

theorem resumeThen (h : Quiet b s) {next : Interface → Interface}
    (hnext : ∀ t, Quiet b t → Quiet b (next t)) (frame : Frame) :
    Quiet b (s.resumeThen frame next) := by
  unfold Interface.resumeThen
  split_ifs
  · refine h.onInput (fun t ht => ?_) _
    have hresumed : Quiet b { t with paused := false } := ⟨ht.history, ht.lines⟩
    exact hresumed.call rfl _
  · exact hnext s h

theorem finishClose (h : Quiet b s) : Quiet b s.finishClose := by
  have hclosed : Quiet b { s with closed := true } := ⟨h.history, h.lines⟩
  exact hclosed.call rfl _

theorem close (h : Quiet b s) : Quiet b s.close := by
  unfold Interface.close
  split_ifs
  · exact h
  · exact h.onInput (fun t ht => ht.pauseThen (fun u hu => hu.finishClose) _) _

theorem moveCursor (h : Quiet b s) (dx : Distance) : Quiet b (s.moveCursor dx) := by
  unfold Interface.moveCursor
  dsimp only
  split
  · split_ifs
    · exact ⟨h.history, h.lines⟩
    · exact ⟨h.history, h.lines⟩
  · exact ⟨h.history, h.lines⟩

theorem wordLeft (h : Quiet b s) : Quiet b s.wordLeft := by
  unfold Interface.wordLeft
  split_ifs
  · split
    · exact h.moveCursor _
    · exact h.raise _
  · exact h

theorem wordRight (h : Quiet b s) : Quiet b s.wordRight := by
  unfold Interface.wordRight
  split_ifs
  · split
    · exact h.moveCursor _
    · exact h.raise _
  · exact h

theorem insertString (h : Quiet b s) (c : Str) : Quiet b (s.insertString c) := by
  unfold Interface.insertString
  split_ifs
  · exact h.edit _ _
  · have hend : Quiet b { s with line := s.line ++ c, cursor := s.cursor + c.length } :=
      ⟨h.history, h.lines⟩
    dsimp only
    split_ifs
    · exact hend.refreshLine.moveCursor _
    · exact (hend.put _).moveCursor _

theorem deleteLeft (h : Quiet b s) : Quiet b s.deleteLeft := by
  unfold Interface.deleteLeft
  split_ifs
  · exact h.edit _ _
  · exact h

theorem deleteRight (h : Quiet b s) : Quiet b s.deleteRight := h.edit _ _

theorem deleteWordLeft (h : Quiet b s) : Quiet b s.deleteWordLeft := by
  unfold Interface.deleteWordLeft
  split_ifs
  · dsimp only
    split
    · exact h.edit _ _
    · exact h.edit _ _
  · exact h

theorem deleteWordRight (h : Quiet b s) : Quiet b s.deleteWordRight := by
  unfold Interface.deleteWordRight
  split_ifs
  · dsimp only
    split
    · exact h.edit _ _
    · exact h.raise _
  · exact h

theorem historyNext (h : Quiet b s) : Quiet b s.historyNext := by
  unfold Interface.historyNext
  split_ifs
  · exact ⟨h.history, h.lines⟩
  · exact ⟨h.history, h.lines⟩
  · exact h

theorem historyPrev (h : Quiet b s) : Quiet b s.historyPrev := by
  unfold Interface.historyPrev
  split_ifs
  · exact ⟨h.history, h.lines⟩
  · exact h

theorem callCompleter (h : Quiet b s) : Quiet b s.callCompleter := h.call rfl _

theorem tabComplete (h : Quiet b s) : Quiet b s.tabComplete :=
  h.pauseThen (fun _ ht => ht.callCompleter) _

theorem listCompletions (h : Quiet b s) (completions : List Str) :
    Quiet b (s.listCompletions completions) := by
  unfold Interface.listCompletions
  dsimp only
  split_ifs
  · exact ⟨h.history, h.lines⟩
  · exact (h.put _).put _

theorem apply (h : Quiet b s) (completion : Completion) : Quiet b (s.apply completion) := by
  unfold Interface.apply
  split
  · exact h
  · exact h
  · exact h
  · exact h.raise _
  · split
    · exact h.raise _
    · exact (h.insertString _).refreshLine
  · have hlisted := h.listCompletions
    dsimp only
    split
    · exact (hlisted _).raise _
    · split_ifs
      · exact ((hlisted _).insertString _).refreshLine
      · exact (hlisted _).refreshLine
    · exact hlisted _

theorem showPrompt (h : Quiet b s) (preserveCursor : Bool) : Quiet b (s.showPrompt preserveCursor) := by
  unfold Interface.showPrompt
  split_ifs
  · exact h.refreshLine
  · exact h.edit _ _

theorem promptUser (h : Quiet b s) (preserveCursor : Bool) : Quiet b (s.promptUser preserveCursor) :=
  h.resumeThen (fun _ ht => ht.showPrompt _) _

theorem question (h : Quiet b s) (query : Str) : Quiet b (s.question query) := by
  unfold Interface.question
  split_ifs
  · exact h.promptUser _
  · have hasked : Quiet b { { s with oldPrompt := s.prompt }.setPrompt query none with
        hasQuestion := true } := ⟨h.history, h.lines⟩
    exact hasked.promptUser _

theorem answer (h : Quiet b s) (completion : Completion) : Quiet b (s.answer completion) :=
  h.resumeThen (fun _ ht => ht.apply _) _

theorem stop (h : Quiet b s) : Quiet b s.stop := h.onInput (fun _ ht => ht.raise _) _

theorem finishContinue (h : Quiet b s) : Quiet b s.finishContinue :=
  h.onInput (fun _ ht => ht.refreshLine) _

theorem sigcont (h : Quiet b s) : Quiet b s.sigcont := by
  unfold Interface.sigcont
  split_ifs
  · exact h.finishContinue
  · exact h.pauseThen (fun _ ht => ht.call rfl _) _

theorem ctrlKey (h : Quiet b s) (name : KeyName) : Quiet b (s.ctrlKey name) := by
  cases name with
  | c =>
    simp only [Interface.ctrlKey]
    split_ifs
    · exact h.call rfl _
    · exact h.close
  | h => exact h.deleteLeft
  | d =>
    simp only [Interface.ctrlKey]
    split_ifs
    · exact h.close
    · exact h.deleteRight
    · exact h
  | u => exact h.edit _ _
  | k => exact h.edit _ _
  | a => exact h.moveCursor _
  | e => exact h.moveCursor _
  | b => exact h.moveCursor _
  | f => exact h.moveCursor _
  | l => exact (h.put _).refreshLine
  | n => exact h.historyNext
  | p => exact h.historyPrev
  | z =>
    simp only [Interface.ctrlKey]
    split_ifs
    · exact h.call rfl _
    · have hlistens : Quiet b { s with sigcontListeners := s.sigcontListeners + 1 } :=
        ⟨h.history, h.lines⟩
      exact hlistens.stop
  | w => exact h.deleteWordLeft
  | backspace => exact h.deleteWordLeft
  | delete => exact h.deleteWordRight
  | left => exact h.wordLeft
  | right => exact h.wordRight
  | _ => exact h

theorem metaKey (h : Quiet b s) (name : KeyName) : Quiet b (s.metaKey name) := by
  cases name with
  | b => exact h.wordLeft
  | f => exact h.wordRight
  | d => exact h.deleteWordRight
  | delete => exact h.deleteWordRight
  | backspace => exact h.deleteWordLeft
  | _ => exact h

end Quiet

/-! ### Steps that submit a line -/

namespace Interface

/-- The text that the first `_line` of a pasted string submits. -/
def pasteSubmits (s : Interface) : List Str → Option Str
  | line :: _ :: _ => some (s.insertString line).line
  | _ => none

def textSubmits (s : Interface) : LuaValue → Option Str
  | .string pasted => s.pasteSubmits (textLines pasted)
  | _ => none

def plainSubmits (s : Interface) (text : LuaValue) : KeyName → Option Str
  | .enter => some s.line
  | .backspace | .delete | .tab | .left | .right | .home | .endKey | .up | .down => none
  | _ => s.textSubmits text

/-- The text on the line when `_ttyWrite` calls `_line`, if it does. -/
def keySubmits (s : Interface) (text : LuaValue) (key : Key) : Option Str :=
  if key.name = .escape ∨ key.ctrl = true ∨ key.isMeta = true then none
  else s.plainSubmits text key.name

def frameSubmits (s : Interface) : Frame → Option Str
  | .writing text key => s.keySubmits text key
  | .pasting lines => s.pasteSubmits lines
  | _ => none

def actSubmits (s : Interface) : Event → Option Str
  | .keypress text key => s.keySubmits text key
  | .write text key => if s.paused then none else s.keySubmits text key
  | .returned =>
    match s.frames with
    | frame :: frames => { s with frames }.frameSubmits frame
    | [] => none
  | _ => none

def submits (s : Interface) (e : Event) : Option Str :=
  match s.status with
  | .running => s.actSubmits e
  | _ => none

/-- A command that submits `submitted` is `_line` in a state in which this is on the line; one
that submits nothing hands on no line. -/
def Submits (s : Interface) (submitted : Option Str) (t : Interface) : Prop :=
  match submitted with
  | some text => ∃ u frame, Quiet s u ∧ u.line = text ∧ t = u.enterLine frame
  | none => Quiet s t

theorem submits_paste (s : Interface) (lines : List Str) :
    s.Submits (s.pasteSubmits lines) (s.paste lines) := by
  rcases lines with _ | ⟨line, _ | ⟨next, rest⟩⟩
  · exact Quiet.refl s
  · exact (Quiet.refl s).insertString line
  · exact ⟨s.insertString line, .pasting (next :: rest), (Quiet.refl s).insertString line, rfl, rfl⟩

theorem submits_text (s : Interface) (text : LuaValue) :
    s.Submits (s.textSubmits text) (s.plainKey text .other) := by
  have hquiet := Quiet.refl s
  cases text with
  | string pasted => exact s.submits_paste (textLines pasted)
  | nil => exact hquiet
  | boolean b =>
    cases b with
    | false => exact hquiet
    | true => exact hquiet.raise _
  | _ => exact hquiet.raise _

theorem submits_plainKey (s : Interface) (text : LuaValue) (name : KeyName) :
    s.Submits (s.plainSubmits text name) (s.plainKey text name) := by
  have hquiet := Quiet.refl s
  cases name with
  | enter => exact ⟨s, .nothing, hquiet, rfl, rfl⟩
  | backspace => exact hquiet.deleteLeft
  | delete => exact hquiet.deleteRight
  | tab => exact hquiet.tabComplete
  | left => exact hquiet.moveCursor _
  | right => exact hquiet.moveCursor _
  | home => exact hquiet.moveCursor _
  | endKey => exact hquiet.moveCursor _
  | up => exact hquiet.historyPrev
  | down => exact hquiet.historyNext
  | _ => exact s.submits_text text

theorem submits_ttyWrite (s : Interface) (text : LuaValue) (key : Key) :
    s.Submits (s.keySubmits text key) (s.ttyWrite text key) := by
  have hquiet := Quiet.refl s
  obtain ⟨name, ctrl, isMeta, shift⟩ := key
  unfold ttyWrite
  split_ifs with hescape hboth hbackspace hdelete hctrl hmeta
  · have hnone : s.keySubmits text ⟨name, ctrl, isMeta, shift⟩ = none := if_pos (.inl hescape)
    rw [hnone]
    exact hquiet
  · have hnone : s.keySubmits text ⟨name, ctrl, isMeta, shift⟩ = none := if_pos (.inr (.inl hboth.1))
    rw [hnone]
    exact hquiet.edit _ _
  · have hnone : s.keySubmits text ⟨name, ctrl, isMeta, shift⟩ = none := if_pos (.inr (.inl hboth.1))
    rw [hnone]
    exact hquiet.edit _ _
  · have hnone : s.keySubmits text ⟨name, ctrl, isMeta, shift⟩ = none := if_pos (.inr (.inl hboth.1))
    rw [hnone]
    exact hquiet
  · have hnone : s.keySubmits text ⟨name, ctrl, isMeta, shift⟩ = none := if_pos (.inr (.inl hctrl))
    rw [hnone]
    exact hquiet.ctrlKey _
  · have hnone : s.keySubmits text ⟨name, ctrl, isMeta, shift⟩ = none := if_pos (.inr (.inr hmeta))
    rw [hnone]
    exact hquiet.metaKey _
  · have hplain : s.keySubmits text ⟨name, ctrl, isMeta, shift⟩ = s.plainSubmits text name :=
      if_neg (by rintro (h | h | h); exacts [hescape h, hctrl h, hmeta h])
    rw [hplain]
    exact s.submits_plainKey text name

theorem Submits.mono {s t u : Interface} {submitted : Option Str} (hst : Quiet s t)
    (h : t.Submits submitted u) : s.Submits submitted u := by
  cases submitted with
  | none => exact ⟨h.history.trans hst.history, h.lines.trans hst.lines⟩
  | some text =>
    obtain ⟨v, frame, hquiet, hline, hu⟩ := h
    exact ⟨v, frame, ⟨hquiet.history.trans hst.history, hquiet.lines.trans hst.lines⟩, hline, hu⟩

theorem submits_proceed (s : Interface) (frame : Frame) :
    s.Submits (s.frameSubmits frame) (s.proceed frame) := by
  have hquiet := Quiet.refl s
  cases frame with
  | nothing => exact hquiet
  | writing text key => exact s.submits_ttyWrite text key
  | prompting preserveCursor => exact hquiet.showPrompt preserveCursor
  | pasting lines => exact s.submits_paste lines
  | completing => exact hquiet.callCompleter
  | answering completion => exact hquiet.apply completion
  | closing => exact hquiet.finishClose
  | stopping => exact hquiet.stop
  | continuing => exact hquiet.call rfl _
  | continued => exact hquiet.finishContinue

theorem submits_act (s : Interface) (e : Event) : s.Submits (s.actSubmits e) (s.act e) := by
  have hquiet := Quiet.refl s
  unfold actSubmits act
  cases e with
  | write text key =>
    dsimp only [write]
    by_cases hpaused : s.paused = true
    · rw [if_pos hpaused]
      unfold resumeThen
      rw [if_pos hpaused]
      refine hquiet.onInput (fun t ht => ?_) _
      have hresumed : Quiet s { t with paused := false } := ⟨ht.history, ht.lines⟩
      exact hresumed.call rfl _
    · have hwrite : s.resumeThen (.writing text key) (fun t => t.ttyWrite text key) =
          s.ttyWrite text key := if_neg hpaused
      rw [if_neg hpaused, hwrite]
      exact s.submits_ttyWrite text key
  | keypress text key => exact s.submits_ttyWrite text key
  | prompt preserveCursor => exact hquiet.promptUser preserveCursor
  | question query => exact hquiet.question query
  | setPrompt prompt length => exact hquiet.setPrompt prompt length
  | pause => exact hquiet.pauseThen (fun _ ht => ht) _
  | resume => exact hquiet.resumeThen (fun _ ht => ht) _
  | close => exact hquiet.close
  | answer completion =>
    dsimp only
    split_ifs
    · exact hquiet.answer completion
    · exact hquiet
  | resize columns =>
    have hresized : Quiet s { s with columns } := ⟨rfl, rfl⟩
    exact hresized.raise _
  | listen sigint sigstp => exact ⟨rfl, rfl⟩
  | sigcont =>
    dsimp only
    split_ifs
    · exact hquiet
    · have htaken : Quiet s { s with sigcontListeners := s.sigcontListeners - 1 } := ⟨rfl, rfl⟩
      exact htaken.sigcont
  | input e =>
    dsimp only
    split_ifs
    · exact hquiet
    · exact ⟨rfl, rfl⟩
  | returned =>
    dsimp only [returned]
    cases s.frames with
    | nil => exact hquiet
    | cons frame frames =>
      have hpopped : Quiet s { s with frames } := ⟨rfl, rfl⟩
      exact (submits_proceed { s with frames } frame).mono hpopped
  | threw message => exact hquiet.raise message
  | caught calls => exact hquiet

/-- Every step submits a line or hands on none. -/
theorem submits_step (s : Interface) (e : Event) : s.Submits (s.submits e) (s.step e) := by
  have hquiet := Quiet.refl s
  unfold submits step
  cases s.status with
  | raised message =>
    cases e with
    | caught calls => exact ⟨rfl, rfl⟩
    | _ => exact hquiet
  | looping => exact hquiet
  | running => exact s.submits_act e

end Interface

/-! ### Sessions -/

/-- The editor, and the texts that have been submitted, the oldest first. -/
structure Session where
  editor : Interface
  submitted : List Str

namespace Session

def opened (columns : Option ℕ) : Session := ⟨Interface.opened columns, []⟩

def step (s : Session) (e : Event) : Session :=
  ⟨s.editor.step e, s.submitted ++ (s.editor.submits e).toList⟩

/-- The submitted lines that are not empty, the newest first. -/
def past (s : Session) : List Str := (s.submitted.filter fun line => line ≠ []).reverse

/-- The most recent of them. -/
def recent (s : Session) : List Str := s.past.take kHistorySize

/-- Each line has been handed on as it was submitted, and the history holds the recent ones. -/
structure Faithful (s : Session) : Prop where
  lines : handedOn s.editor.calls = s.submitted
  history : s.editor.history = s.recent

/-- A line that is submitted is empty, or the history is not full, or it is full of this line. -/
def Fits (s : Session) (e : Event) : Prop :=
  ∀ text ∈ s.editor.submits e, text = [] ∨ s.editor.history.length < kHistorySize ∨
    ∀ entry ∈ s.editor.history, entry = text

theorem onLine_lines (u : Interface) (line : Str) (frame : Frame) :
    (u.onLine line frame).history = u.history ∧
      handedOn (u.onLine line frame).calls = handedOn u.calls ++ [line] := by
  unfold onLine
  split_ifs <;> simp [setPrompt, Interface.call, handedOn, UserCall.line?]

/-- `_line` hands on what `_addHistory` returns. -/
theorem enterLine_lines (u : Interface) (frame : Frame) :
    (u.enterLine frame).history = u.addHistory.1.history ∧
      handedOn (u.enterLine frame).calls = handedOn u.calls ++ [u.addHistory.2] := by
  have hcalls : u.addHistory.1.calls = u.calls := by
    unfold addHistory
    split_ifs <;> rfl
  have hmoved := (Quiet.refl u.addHistory.1).moveCursor .finish
  have hcleared : Quiet u.addHistory.1 u.addHistory.1.clearline := ⟨hmoved.history, hmoved.lines⟩
  obtain ⟨hhistory, hlines⟩ := onLine_lines u.addHistory.1.clearline u.addHistory.2 frame
  refine ⟨hhistory.trans hcleared.history, ?_⟩
  calc handedOn (u.enterLine frame).calls
      = handedOn u.addHistory.1.clearline.calls ++ [u.addHistory.2] := hlines
    _ = handedOn u.calls ++ [u.addHistory.2] := by rw [hcleared.lines, hcalls]

theorem addHistory_empty {u : Interface} (h : u.line = []) :
    u.addHistory.1.history = u.history ∧ u.addHistory.2 = [] := by
  simp [addHistory, h]

theorem addHistory_room {u : Interface} (h : u.line ≠ []) (hroom : u.history.length < kHistorySize) :
    u.addHistory.1.history = u.line :: u.history ∧ u.addHistory.2 = u.line := by
  have hkept : ¬ u.history.length + 1 > kHistorySize := by omega
  simp [addHistory, h, hkept]

/-- When the history is full it is the new line that is removed. -/
theorem addHistory_full {u : Interface} (h : u.line ≠ []) (hfull : u.history.length = kHistorySize) :
    u.addHistory.1.history = u.history ∧ u.addHistory.2 = u.history.headD [] := by
  have htrimmed : u.history.length + 1 > kHistorySize := by omega
  simp [addHistory, h, htrimmed]

/-- A list whose front stays the same when an element is put before it consists of this element. -/
theorem eq_of_take_succ {α : Type*} {a : α} {l : List α} {n : ℕ}
    (h : l.take (n + 1) = a :: l.take n) : ∀ x ∈ l.take (n + 1), x = a := by
  induction n generalizing l with
  | zero => simp [h]
  | succ n ih =>
    cases l with
    | nil => simp at h
    | cons b l =>
      rw [List.take_succ_cons, List.take_succ_cons, List.cons.injEq] at h
      obtain ⟨rfl, hrest⟩ := h
      rw [List.take_succ_cons]
      exact List.forall_mem_cons.mpr ⟨rfl, ih hrest⟩

theorem recent_step_none {s : Session} {e : Event} (h : s.editor.submits e = none) :
    (s.step e).recent = s.recent := by
  simp [recent, past, step, h]

theorem recent_step_empty {s : Session} {e : Event} (h : s.editor.submits e = some []) :
    (s.step e).recent = s.recent := by
  simp [recent, past, step, h]

theorem recent_step_some {s : Session} {e : Event} {text : Str} (h : s.editor.submits e = some text)
    (htext : text ≠ []) : (s.step e).recent = text :: s.past.take (kHistorySize - 1) := by
  simp [recent, past, step, h, htext, kHistorySize]

/-- A full history stays faithful when a line is removed that is the same as all others. -/
theorem full_iff {s : Session} (h : s.Faithful) (hfull : s.editor.history.length = kHistorySize)
    (text : Str) :
    s.editor.history.headD [] = text ∧ s.editor.history = text :: s.past.take (kHistorySize - 1) ↔
      ∀ entry ∈ s.editor.history, entry = text := by
  have hhistory : s.editor.history = s.past.take (kHistorySize - 1 + 1) := h.history
  constructor
  · rintro ⟨-, hsame⟩
    rw [hhistory] at hsame ⊢
    exact eq_of_take_succ hsame
  · intro hall
    have hreplicate : s.editor.history = List.replicate (kHistorySize - 1 + 1) text :=
      List.eq_replicate_iff.mpr ⟨hfull, hall⟩
    have hfront : s.past.take (kHistorySize - 1) = List.replicate (kHistorySize - 1) text := by
      calc s.past.take (kHistorySize - 1)
          = (s.past.take (kHistorySize - 1 + 1)).take (kHistorySize - 1) := by
            rw [List.take_take, min_eq_left (by omega)]
        _ = List.replicate (kHistorySize - 1) text := by
            rw [← hhistory, hreplicate, List.take_replicate, min_eq_left (by omega)]
    rw [hfront, hreplicate]
    exact ⟨rfl, rfl⟩

/-- A step keeps a session faithful exactly when the line it submits fits. -/
theorem faithful_step_iff {s : Session} (hbounded : s.editor.history.length ≤ kHistorySize)
    (h : s.Faithful) (e : Event) : (s.step e).Faithful ↔ s.Fits e := by
  have hstep := submits_step s.editor e
  unfold Fits
  cases hsubmits : s.editor.submits e with
  | none =>
    rw [hsubmits] at hstep
    have hquiet : Quiet s.editor (s.editor.step e) := hstep
    refine iff_of_true ⟨?_, ?_⟩ (by simp)
    · simp [step, hsubmits, hquiet.lines, h.lines]
    · rw [recent_step_none hsubmits, ← h.history]
      exact hquiet.history
  | some text =>
    rw [hsubmits] at hstep
    obtain ⟨u, frame, hquiet, rfl, hentered⟩ := hstep
    obtain ⟨hhistory, hlines⟩ := enterLine_lines u frame
    rw [← hentered] at hhistory hlines
    rw [hquiet.lines, h.lines] at hlines
    have hsubmitted : (s.step e).submitted = s.submitted ++ [u.line] := by simp [step, hsubmits]
    have hfaithful : (s.step e).Faithful ↔
        u.addHistory.2 = u.line ∧ u.addHistory.1.history = (s.step e).recent := by
      constructor
      · intro hnext
        have hsame := hlines.symm.trans (hnext.lines.trans hsubmitted)
        exact ⟨by simpa using hsame, hhistory.symm.trans hnext.history⟩
      · rintro ⟨hline, hrecent⟩
        exact ⟨hlines.trans (by rw [hline, hsubmitted]), hhistory.trans hrecent⟩
    rw [hfaithful]
    simp only [Option.mem_some_iff, forall_eq']
    by_cases hempty : u.line = []
    · obtain ⟨hsame, hreturned⟩ := addHistory_empty hempty
      rw [hempty] at hsubmits
      refine iff_of_true ⟨by rw [hreturned, hempty], ?_⟩ (.inl hempty)
      rw [hsame, hquiet.history, recent_step_empty hsubmits, h.history]
    · rw [recent_step_some hsubmits hempty]
      by_cases hroom : s.editor.history.length < kHistorySize
      · obtain ⟨hsame, hreturned⟩ := addHistory_room hempty (hquiet.history ▸ hroom)
        have hlength : s.past.length < kHistorySize := by
          have hhistory := congrArg List.length h.history
          rw [recent, List.length_take] at hhistory
          omega
        have hpast : s.past.take (kHistorySize - 1) = s.editor.history := by
          rw [h.history, recent, List.take_of_length_le (by omega), List.take_of_length_le hlength.le]
        refine iff_of_true ⟨hreturned, ?_⟩ (.inr (.inl hroom))
        rw [hsame, hquiet.history, hpast]
      · have hfull : s.editor.history.length = kHistorySize := by omega
        obtain ⟨hsame, hreturned⟩ := addHistory_full hempty (hquiet.history ▸ hfull)
        rw [hsame, hreturned, hquiet.history, full_iff h hfull u.line]
        simp [hempty, hroom]

/-- In every run, each submitted line has been handed on and the history holds the recent ones in every
state reached, exactly when every line that is submitted fits. -/
theorem faithful_iff (columns : Option ℕ) (es : List Event) :
    (∀ t ∈ statesOf step (opened columns) es, t.Faithful) ↔
      Guarded step Fits (opened columns) es := by
  have hplaced (s : Session) (e : Event) (h : s.editor.Placed) : (s.step e).editor.Placed := h.step e
  have hopened : (opened columns).editor.Placed :=
    ⟨le_rfl, by simp [opened, Interface.opened], .inl rfl, by simp [opened, Interface.opened]⟩
  exact states_iff_guarded hplaced (fun s e hp hf => faithful_step_iff hp.bounded hf e) hopened
    ⟨rfl, rfl⟩ es

/-- A line of one character, and Enter. -/
def typed (c : Char) : List Event :=
  [.keypress (.string [c]) ⟨.other, false, false, false⟩,
    .keypress (.string ['\r']) ⟨.enter, false, false, false⟩, .returned]

/-- After 30 lines another one is handed on as the one before. -/
theorem faithful_broken :
    ¬ ∀ (columns : Option ℕ) (es : List Event), ∀ t ∈ statesOf step (opened columns) es,
      t.Faithful := by
  intro h
  have hfaithful := h (some 80) ((List.replicate 30 (typed 'a')).flatten ++ typed 'b') _
    (run_mem_statesOf ..)
  have hlast : (handedOn (run step (opened (some 80))
      ((List.replicate 30 (typed 'a')).flatten ++ typed 'b')).editor.calls).getLast? = some ['a'] := by
    decide +kernel
  rw [hfaithful.lines] at hlast
  exact absurd hlast (by decide +kernel)

end Session

end LuaNode.Readline
