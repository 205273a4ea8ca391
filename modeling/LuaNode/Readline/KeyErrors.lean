import LuaNode.Readline.Deletions

/-!
# Errors of keys

`_ttyWrite` raises an error in three ways: `_wordLeft` takes the length of a match that has failed, since
there is no word before the cursor; and Ctrl-C, Ctrl-D and TAB use the handle of an input that may
have been destroyed. Ctrl-Z, which always raises, is left out, and so are errors of user code.
-/

namespace LuaNode.Readline.Interface

open Tty

/-! ### Commands that raise nothing -/

section Status

variable {s : Interface}

@[simp] theorem put_status (written : List Written) : (s.put written).status = s.status := rfl

@[simp] theorem call_status (c : UserCall) (frame : Frame) : (s.call c frame).status = s.status := rfl

@[simp] theorem refreshLine_status : s.refreshLine.status = s.status := rfl

@[simp] theorem setPrompt_status (prompt : Str) (length : Option ℤ) :
    (s.setPrompt prompt length).status = s.status := rfl

@[simp] theorem showEntry_status : s.showEntry.status = s.status := rfl

@[simp] theorem finishClose_status : s.finishClose.status = s.status := rfl

@[simp] theorem callCompleter_status : s.callCompleter.status = s.status := rfl

@[simp] theorem deleteRight_status : s.deleteRight.status = s.status := rfl

@[simp] theorem deleteLineLeft_status : s.deleteLineLeft.status = s.status := rfl

@[simp] theorem deleteLineRight_status : s.deleteLineRight.status = s.status := rfl

@[simp] theorem moveCursor_status (dx : Distance) : (s.moveCursor dx).status = s.status := by
  unfold moveCursor
  dsimp only
  split
  · split_ifs <;> rfl
  · rfl

@[simp] theorem insertString_status (c : Str) : (s.insertString c).status = s.status := by
  unfold insertString
  dsimp only
  split_ifs <;> simp

@[simp] theorem deleteLeft_status : s.deleteLeft.status = s.status := by
  unfold deleteLeft
  split_ifs <;> simp

@[simp] theorem deleteWordLeft_status : s.deleteWordLeft.status = s.status := by
  unfold deleteWordLeft
  split_ifs
  · dsimp only
    split <;> simp
  · rfl

@[simp] theorem clearline_status : s.clearline.status = s.status := by
  simp [clearline, put]

@[simp] theorem addHistory_status : s.addHistory.1.status = s.status := by
  unfold addHistory
  split_ifs <;> rfl

@[simp] theorem onLine_status (line : Str) (frame : Frame) : (s.onLine line frame).status = s.status := by
  unfold onLine
  split_ifs <;> simp

@[simp] theorem enterLine_status (frame : Frame) : (s.enterLine frame).status = s.status := by
  simp [enterLine]

@[simp] theorem historyNext_status : s.historyNext.status = s.status := by
  unfold historyNext
  split_ifs <;> simp

@[simp] theorem historyPrev_status : s.historyPrev.status = s.status := by
  unfold historyPrev
  split_ifs <;> simp

@[simp] theorem paste_status (lines : List Str) : (s.paste lines).status = s.status := by
  rcases lines with _ | ⟨line, _ | ⟨next, rest⟩⟩ <;> simp [paste]

end Status

/-! ### Commands that may raise an error -/

def isRaised : Status → Bool
  | .raised _ => true
  | _ => false

/-- There are blanks before the cursor and nothing else. -/
def BlanksBefore (s : Interface) : Prop :=
  0 < s.cursor ∧ ∀ c ∈ s.line.take s.cursor.toNat, kind c = .blank

/-- The input has been destroyed before the interface is closed. -/
def LostBeforeClose (s : Interface) : Prop := s.closed = false ∧ s.input.hasHandle = false

/-- The input has been destroyed and is not paused. -/
def LostBeforePause (s : Interface) : Prop :=
  s.paused = false ∧ s.input.paused = false ∧ s.input.hasHandle = false

section Raising

variable {s : Interface}

theorem wordLeft_raises_iff (h : s.Placed) (hrunning : s.status = .running) :
    isRaised s.wordLeft.status = true ↔ s.BlanksBefore := by
  unfold wordLeft BlanksBefore
  split_ifs with hcursor
  · have hbefore : sub s.line 1 s.cursor = s.line.take s.cursor.toNat := sub_one _ h.nonneg
    rw [hbefore]
    cases hword : wordBefore (s.line.take s.cursor.toNat) with
    | none =>
      exact iff_of_true rfl ⟨hcursor, (wordBefore_eq_none_iff _).mp hword⟩
    | some word =>
      refine iff_of_false (by simp [hrunning, isRaised]) fun hblank => ?_
      rw [(wordBefore_eq_none_iff _).mpr hblank.2] at hword
      cases hword
  · simp [hrunning, isRaised, hcursor]

/-- There is text behind a cursor that is not at the end of the line. -/
theorem trailing_found (h : s.Placed) (hinside : s.cursor < s.line.length) :
    ∃ word, wordAfter (subFrom s.line (s.cursor + 1)) = some word := by
  have hnonneg := h.nonneg
  refine wordAfter_isSome fun hempty => ?_
  rw [subFrom_eq_drop _ (by omega), List.drop_eq_nil_iff] at hempty
  omega

theorem wordRight_status (h : s.Placed) : s.wordRight.status = s.status := by
  unfold wordRight
  split_ifs with hinside
  · obtain ⟨word, hword⟩ := trailing_found h hinside
    simp [hword]
  · rfl

theorem deleteWordRight_status (h : s.Placed) : s.deleteWordRight.status = s.status := by
  unfold deleteWordRight
  split_ifs with hinside
  · obtain ⟨word, hword⟩ := trailing_found h hinside
    simp [hword]
  · rfl

theorem pause_of_handle (r : ReadStream) (h : r.hasHandle = true) : r.pause.2 = none := by
  unfold ReadStream.pause
  split_ifs <;> rfl

theorem close_raises_iff (hrunning : s.status = .running) :
    isRaised s.close.status = true ↔ s.LostBeforeClose := by
  unfold Interface.close LostBeforeClose
  cases hclosed : s.closed with
  | true => simp [hrunning, isRaised]
  | false =>
    cases hhandle : s.input.hasHandle with
    | false => simp [setRawMode, onInput, ReadStream.setRawMode, hhandle, raise, isRaised]
    | true =>
      have hset : s.input.setRawMode false = ({ s.input with isRaw := false }, none) := if_pos hhandle
      have hnone := pause_of_handle { s.input with isRaw := false } hhandle
      refine iff_of_false ?_ (by simp)
      simp only [Bool.false_eq_true, if_false, setRawMode, hset, onInput, pauseThen]
      split_ifs
      · simp [hrunning, isRaised]
      · rcases hpause : ReadStream.pause { s.input with isRaw := false } with ⟨input, message⟩
        rw [hpause] at hnone
        simp [show message = none from hnone, hrunning, isRaised]

theorem tabComplete_raises_iff (hrunning : s.status = .running) :
    isRaised s.tabComplete.status = true ↔ s.LostBeforePause := by
  unfold tabComplete pauseThen LostBeforePause onInput ReadStream.pause
  cases s.paused <;> cases s.input.paused <;> cases s.input.hasHandle <;>
    simp [hrunning, isRaised, raise]

theorem ctrlKey_raises_iff (h : s.Placed) (hrunning : s.status = .running) {name : KeyName}
    (hname : name ≠ .z) :
    isRaised (s.ctrlKey name).status = true ↔
      name = .left ∧ s.BlanksBefore ∨
        (name = .c ∧ s.sigintListeners = false ∨ name = .d ∧ s.cursor = 0 ∧ s.line = []) ∧
          s.LostBeforeClose := by
  cases name with
  | c =>
    simp only [ctrlKey]
    split_ifs with hlisteners
    · simp [hrunning, isRaised, hlisteners]
    · simp [close_raises_iff hrunning, hlisteners]
  | d =>
    simp only [ctrlKey]
    split_ifs with hempty hinside
    · simp [close_raises_iff hrunning, hempty.1, List.length_eq_zero_iff.mp hempty.2]
    · simp only [deleteRight_status, hrunning]
      refine iff_of_false (by simp [isRaised]) ?_
      rintro (⟨hleft, -⟩ | ⟨⟨hc, -⟩ | ⟨-, hcursor, hline⟩, -⟩)
      · cases hleft
      · cases hc
      · simp [hcursor, hline] at hinside
    · rw [hrunning]
      refine iff_of_false (by simp [isRaised]) ?_
      rintro (⟨hleft, -⟩ | ⟨⟨hc, -⟩ | ⟨-, hcursor, hline⟩, -⟩)
      · cases hleft
      · cases hc
      · exact hempty ⟨hcursor, by simp [hline]⟩
  | left => simp [ctrlKey, wordLeft_raises_iff h hrunning]
  | right => simp [ctrlKey, wordRight_status h, hrunning, isRaised]
  | delete => simp [ctrlKey, deleteWordRight_status h, hrunning, isRaised]
  | z => exact absurd rfl hname
  | _ => simp [ctrlKey, hrunning, isRaised]

theorem metaKey_raises_iff (h : s.Placed) (hrunning : s.status = .running) (name : KeyName) :
    isRaised (s.metaKey name).status = true ↔ name = .b ∧ s.BlanksBefore := by
  cases name with
  | b => simp [metaKey, wordLeft_raises_iff h hrunning]
  | f => simp [metaKey, wordRight_status h, hrunning, isRaised]
  | d => simp [metaKey, deleteWordRight_status h, hrunning, isRaised]
  | delete => simp [metaKey, deleteWordRight_status h, hrunning, isRaised]
  | _ => simp [metaKey, hrunning, isRaised]

/-- The text of a key is a string, or there is none. -/
def IsText (text : LuaValue) : Prop := text = .nil ∨ ∃ typed, text = .string typed

theorem plainKey_raises_iff (hrunning : s.status = .running) {text : LuaValue} (htext : IsText text)
    (name : KeyName) :
    isRaised (s.plainKey text name).status = true ↔ name = .tab ∧ s.LostBeforePause := by
  rcases htext with rfl | ⟨typed, rfl⟩
  · cases name with
    | tab => simp [plainKey, tabComplete_raises_iff hrunning]
    | _ => simp [plainKey, hrunning, isRaised]
  · cases name with
    | tab => simp [plainKey, tabComplete_raises_iff hrunning]
    | _ => simp [plainKey, hrunning, isRaised]

/-- The keys at which `_ttyWrite` raises an error. -/
def Breaks (s : Interface) (key : Key) : Prop :=
  (key.ctrl = true ∧ key.shift = false ∧ key.name = .left ∨
      key.ctrl = false ∧ key.isMeta = true ∧ key.name = .b) ∧ s.BlanksBefore ∨
    key.ctrl = true ∧ key.shift = false ∧
      (key.name = .c ∧ s.sigintListeners = false ∨ key.name = .d ∧ s.cursor = 0 ∧ s.line = []) ∧
      s.LostBeforeClose ∨
    key.ctrl = false ∧ key.isMeta = false ∧ key.name = .tab ∧ s.LostBeforePause

def IsCtrlZ (key : Key) : Prop := key.ctrl = true ∧ key.shift = false ∧ key.name = .z

theorem ttyWrite_raises_iff (h : s.Placed) (hrunning : s.status = .running) {text : LuaValue}
    (htext : IsText text) {key : Key} (hz : ¬ IsCtrlZ key) :
    isRaised (s.ttyWrite text key).status = true ↔ s.Breaks key := by
  obtain ⟨name, ctrl, isMeta, shift⟩ := key
  unfold ttyWrite Breaks
  split_ifs with hescape hboth hbackspace hdelete hctrl hmeta
  · simp_all [isRaised]
  · simp_all [isRaised]
  · simp_all [isRaised]
  · simp_all [isRaised]
  · have hctrl : ctrl = true := hctrl
    have hshift : shift = false := by simpa [hctrl] using hboth
    have hname : name ≠ .z := fun hname => hz ⟨hctrl, hshift, hname⟩
    simp [ctrlKey_raises_iff h hrunning hname, hctrl, hshift]
  · have hctrl : ctrl = false := by simpa using hctrl
    have hmeta : isMeta = true := hmeta
    simp [metaKey_raises_iff h hrunning, hctrl, hmeta]
  · have hctrl : ctrl = false := by simpa using hctrl
    have hmeta : isMeta = false := by simpa using hmeta
    simp [plainKey_raises_iff hrunning htext, hctrl, hmeta]

end Raising

/-! ### Runs -/

/-- The text and the key with which a step enters `_ttyWrite`. -/
def entered (s : Interface) : Event → Option (LuaValue × Key)
  | .keypress text key => some (text, key)
  | .write text key => if s.paused then none else some (text, key)
  | .returned =>
    match s.frames with
    | .writing text key :: _ => some (text, key)
    | _ => none
  | _ => none

/-- The step goes on with a `_ttyWrite` that user code has interrupted. -/
def Resumes (s : Interface) : Event → Prop
  | .returned =>
    match s.frames with
    | .nothing :: _ | .pasting _ :: _ | .completing :: _ | .closing :: _ => True
    | _ => False
  | _ => False

/-- No error is raised while a key is worked on. -/
def NoKeyRaises (s : Interface) (e : Event) : Prop :=
  s.status = .running →
    (∀ text key, s.entered e = some (text, key) → IsText text → ¬ IsCtrlZ key →
      isRaised (s.step e).status = false) ∧
    (s.Resumes e → isRaised (s.step e).status = false)

/-- The key is none of those that raise an error in this state. -/
def KeyFits (s : Interface) (e : Event) : Prop :=
  s.status = .running →
    ∀ text key, s.entered e = some (text, key) → IsText text → ¬ IsCtrlZ key → ¬ s.Breaks key

theorem step_running {s : Interface} (hrunning : s.status = .running) (e : Event) :
    s.step e = s.act e := by
  unfold step
  rw [hrunning]

/-- What the editor is when it enters `_ttyWrite`: only the frames may have changed. -/
theorem step_entered {s : Interface} {e : Event} (hrunning : s.status = .running) {text : LuaValue}
    {key : Key} (h : s.entered e = some (text, key)) :
    ∃ frames, s.step e = { s with frames }.ttyWrite text key := by
  cases e with
  | keypress text' key' =>
    cases h
    exact ⟨s.frames, step_running hrunning _⟩
  | write text' key' =>
    simp only [entered] at h
    split_ifs at h with hpaused
    cases h
    have hwrite : s.write text key = s.ttyWrite text key := if_neg hpaused
    exact ⟨s.frames, (step_running hrunning _).trans hwrite⟩
  | returned =>
    simp only [entered] at h
    cases hframes : s.frames with
    | nil => simp [hframes] at h
    | cons frame frames =>
      rw [hframes] at h
      cases frame with
      | writing text' key' =>
        cases h
        have hreturned : s.returned = { s with frames }.ttyWrite text key := by
          unfold returned
          rw [hframes]
          rfl
        exact ⟨frames, (step_running hrunning _).trans hreturned⟩
      | _ => simp at h
  | _ => simp [entered] at h

theorem step_resumes {s : Interface} {e : Event} (hrunning : s.status = .running)
    (h : s.Resumes e) : isRaised (s.step e).status = false := by
  cases e with
  | returned =>
    simp only [Resumes] at h
    cases hframes : s.frames with
    | nil => simp [hframes] at h
    | cons frame frames =>
      rw [hframes] at h
      cases frame <;> simp_all [step, act, returned, proceed, isRaised]
  | _ => simp [Resumes] at h

theorem noKeyRaises_iff {s : Interface} (h : s.Placed) (e : Event) :
    s.NoKeyRaises e ↔ s.KeyFits e := by
  have hstep {text : LuaValue} {key : Key} (hrunning : s.status = .running)
      (hentered : s.entered e = some (text, key)) (htext : IsText text) (hz : ¬ IsCtrlZ key) :
      isRaised (s.step e).status = false ↔ ¬ s.Breaks key := by
    obtain ⟨frames, hwritten⟩ := step_entered hrunning hentered
    have hplaced : { s with frames }.Placed := ⟨h.nonneg, h.le_length, h.index, h.bounded⟩
    have hraises := ttyWrite_raises_iff hplaced hrunning htext hz
    rw [hwritten, ← Bool.not_eq_true, hraises]
    exact Iff.rfl
  constructor
  · intro hnone hrunning text key hentered htext hz
    exact (hstep hrunning hentered htext hz).mp ((hnone hrunning).1 text key hentered htext hz)
  · intro hfits hrunning
    refine ⟨fun text key hentered htext hz => ?_, step_resumes hrunning⟩
    exact (hstep hrunning hentered htext hz).mpr (hfits hrunning text key hentered htext hz)

/-- In every run, no key raises an error exactly when none of the keys breaks in the state in which
it comes. -/
theorem no_key_raises_iff (columns : Option ℕ) (es : List Event) :
    Guarded step NoKeyRaises (opened columns) es ↔ Guarded step KeyFits (opened columns) es := by
  have hopened : (opened columns).Placed := ⟨le_rfl, by simp [opened], .inl rfl, by simp [opened]⟩
  constructor
  · exact guarded_imp (I := Placed) (fun _ e h _ => h.step e) (fun _ e h => (noKeyRaises_iff h e).mp)
      hopened
  · exact guarded_imp (I := Placed) (fun _ e h _ => h.step e) (fun _ e h => (noKeyRaises_iff h e).mpr)
      hopened

/-- A blank and Ctrl-left. -/
theorem no_key_raises_broken :
    ¬ ∀ (columns : Option ℕ) (es : List Event), Guarded step NoKeyRaises (opened columns) es := by
  intro h
  have hguarded := h (some 80) [.keypress (.string [' ']) ⟨.other, false, false, false⟩,
    .keypress .nil ⟨.left, true, false, false⟩]
  have hraised := (hguarded.2.1 rfl).1 .nil ⟨.left, true, false, false⟩ rfl (.inl rfl) (by simp [IsCtrlZ])
  exact absurd hraised (by decide)

end LuaNode.Readline.Interface
