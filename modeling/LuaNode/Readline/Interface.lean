import LuaNode.Library.LuaStack
import LuaNode.Library.Substring
import LuaNode.Tty.ReadStream

/-!
# The line editor

`Interface` of `readline.lua` in terminal mode, reading from a `tty.ReadStream`. Listeners, callbacks of
`question` and completers are user code: where the interface calls them it stops, with a frame
that says what is left to do, and what they call are events of their own until `returned`. An error
ends the calls up to the `pcall` that catches it. `output.columns` is a number or nil, and no
listener of `output` raises.
-/

namespace LuaNode.Readline

open Tty

/-- The names of keys that `_ttyWrite` knows. -/
inductive KeyName
  | a | b | c | d | e | f | h | k | l | n | p | u | w | z
  | escape | enter | tab | backspace | delete | left | right | up | down | home | endKey
  | other
  | absent
  deriving DecidableEq

structure Key where
  name : KeyName
  ctrl : Bool
  isMeta : Bool
  shift : Bool
  deriving DecidableEq

/-- How far `_moveCursor` moves: `-math.huge`, a number or `math.huge`. -/
inductive Distance
  | start
  | cells (dx : ℤ)
  | finish

/-- What the completer hands to its callback: the strings, and the length of `completeOn` if it has
one. -/
inductive Completion
  | failed
  | nothing
  | found (completions : List Str) (completeOn : Option ℕ)
  /-- values of other types, which the callback cannot work with -/
  | malformed (message : Str)

/-- What is left to do when user code returns. -/
inductive Frame
  | nothing
  /-- of `write`, after `resume` -/
  | writing (text : LuaValue) (key : Key)
  /-- of `prompt`, after `resume` -/
  | prompting (preserveCursor : Bool)
  /-- of `_ttyWrite`, after the `_line` between two lines of a pasted string -/
  | pasting (lines : List Str)
  /-- of `_tabComplete`, after `pause` -/
  | completing
  /-- of the callback of the completer, after `resume` -/
  | answering (completion : Completion)
  /-- of `close`, after `pause` -/
  | closing
  /-- of Ctrl-Z, after 'SIGSTP' -/
  | stopping
  /-- of the listener of 'SIGCONT', after `pause` -/
  | continuing
  /-- of the listener of 'SIGCONT', after 'SIGCONT' -/
  | continued

/-- The calls of user code. -/
inductive UserCall
  | line (line : Str)
  | answer (line : Str)
  | completer (text : Str)
  | pause
  | resume
  | close
  | sigint
  | sigstp
  | sigcont

/-- What is written to `output`; an absent number is a NaN. -/
inductive Written
  | text (s : Str)
  | cursorTo (x : Option ℤ) (y : Option ℤ)
  | moveCursor (dx dy : ℤ)
  | clearScreenDown

inductive Status
  | running
  | raised (message : Str)
  /-- a loop of the interface does not end -/
  | looping

structure Interface where
  input : ReadStream
  /-- `output.columns`, or `none` for `math.huge` -/
  columns : Option ℕ
  output : List Written
  prompt : Str
  promptLength : ℤ
  oldPrompt : Str
  line : Str
  cursor : ℤ
  history : List Str
  historyIndex : ℤ
  /-- `prevRows or 0`, or `none` for a NaN -/
  prevRows : Option ℤ
  paused : Bool
  closed : Bool
  hasQuestion : Bool
  sigintListeners : Bool
  sigstpListeners : Bool
  /-- the listeners of 'SIGCONT' that Ctrl-Z has added to `process` -/
  sigcontListeners : ℕ
  calls : List UserCall
  frames : List Frame
  status : Status

inductive Event
  | write (text : LuaValue) (key : Key)
  /-- 'keypress' of the input, whose listener calls `_ttyWrite` -/
  | keypress (text : LuaValue) (key : Key)
  | prompt (preserveCursor : Bool)
  | question (query : Str)
  | setPrompt (prompt : Str) (length : Option ℤ)
  | pause
  | resume
  | close
  /-- the callback of a completer is called -/
  | answer (completion : Completion)
  | resize (columns : Option ℕ)
  | listen (sigint sigstp : Bool)
  | sigcont
  | input (e : ReadEvent)
  /-- the user code that runs returns -/
  | returned
  /-- it raises an error -/
  | threw (message : Str)
  /-- the error ends this many calls of user code -/
  | caught (calls : ℕ)

def kHistorySize : ℕ := 30

def isCompleter : UserCall → Bool
  | .completer _ => true
  | _ => false

/-- `prompt:match("[\r\n].+$")`. -/
def lastLine (prompt : Str) : Option Str :=
  match prompt.dropWhile fun c => c ≠ '\r' ∧ c ≠ '\n' with
  | newline :: first :: rest => some (newline :: first :: rest)
  | _ => none

/-- `commonPrefix`: the first and the last string of the sorted list, as far as they agree. -/
def commonPrefix (strings : List Str) : Str :=
  match strings.mergeSort bytesLe with
  | [] => []
  | first :: rest =>
    let last := rest.getLastD first
    ((first.zip last).takeWhile fun p => p.1 = p.2).map Prod.fst

/-- `handleGroup`, when there is at least one column. -/
def handleGroup (group : List Str) (width : ℕ) (maxColumns : Option ℕ) : List Written :=
  if group = [] then []
  else
    match maxColumns with
    | none => [.text crlf]
    | some columns =>
      let cell (row col : ℕ) : List Written :=
        match group[row * columns + col]? with
        | none => []
        | some item =>
          .text item :: if col < columns - 1 then
            List.replicate (width - item.length) (.text [' ']) else []
      (List.range ((group.length + columns - 1) / columns)).flatMap (fun row =>
        (List.range columns).flatMap (cell row) ++ [.text crlf]) ++ [.text crlf]

/-- `leading:match("([^%w%s]+)%s*$") or leading:match("(%w+)%s*$")`. -/
def wordBefore (leading : Str) : Option Str :=
  let body := leading.reverse.dropWhile isSpace
  let signs := body.takeWhile fun c => !c.isAlphanum && !isSpace c
  let word := body.takeWhile Char.isAlphanum
  if signs ≠ [] then some signs.reverse else if word ≠ [] then some word.reverse else none

/-- `trailing:match("^(%s+%s*)")`, or with `%W` and then `%w` in place of the first `%s`. -/
def wordAfter (trailing : Str) : Option Str :=
  let blanks := trailing.takeWhile isSpace
  let others := trailing.takeWhile fun c => !c.isAlphanum
  let word := trailing.takeWhile Char.isAlphanum
  if blanks ≠ [] then some blanks
  else if others ≠ [] then some others
  else if word ≠ [] then
    some (word ++ (trailing.drop word.length).takeWhile isSpace)
  else none

namespace Interface

variable (s : Interface)

def raise (message : Str) : Interface := { s with status := .raised message }

def put (written : List Written) : Interface := { s with output := s.output ++ written }

/-- User code is called, and `frame` is what is left to do then. -/
def call (c : UserCall) (frame : Frame) : Interface :=
  { s with calls := s.calls ++ [c], frames := frame :: s.frames }

/-! ### The screen -/

/-- Column and row of a position; both are NaN when there are no columns or `math.huge` of them. -/
def place (position : ℤ) : Option (ℤ × ℤ) :=
  match s.columns with
  | none | some 0 => none
  | some (n + 1) => some (position % (n + 1), position / (n + 1))

def getCursorPos : Option (ℤ × ℤ) := s.place (s.cursor + s.promptLength)

/-- `moveCursor` of the module. -/
def moveBy (dx dy : ℤ) : List Written := if dx = 0 ∧ dy = 0 then [] else [.moveCursor dx dy]

def refreshLine : Interface :=
  let line := s.prompt ++ s.line
  let size := s.place line.length
  let cursorPos := s.getCursorPos
  let up := match s.prevRows with
    | some rows => if rows > 0 then moveBy 0 (-rows) else []
    | none => []
  let newLine := if size.map Prod.fst = some 0 then [Written.text [' ']] else []
  let down := match size, cursorPos with
    | some (_, lineRows), some (_, rows) =>
      if lineRows - rows > 0 then moveBy 0 (-(lineRows - rows)) else []
    | _, _ => []
  { s with
    output := s.output ++ up ++ [.cursorTo (some 0) none, .clearScreenDown, .text line] ++ newLine ++
      [.cursorTo (cursorPos.map Prod.fst) none] ++ down
    prevRows := cursorPos.map Prod.snd }

/-- The bounds check of `_moveCursor`. -/
def moved (dx : Distance) : ℤ :=
  let target : ℤ := match dx with
    | .start => 0
    | .cells dx => if s.cursor + dx < 0 then 0 else s.cursor + dx
    | .finish => s.line.length
  if target > s.line.length then s.line.length else target

def moveCursor (dx : Distance) : Interface :=
  let t := { s with cursor := s.moved dx }
  match s.getCursorPos, t.getCursorPos with
  | some (_, oldRows), some (_, newRows) =>
    if oldRows = newRows then
      { t.put (moveBy (t.cursor - s.cursor) 0) with prevRows := some newRows }
    else t.refreshLine
  | _, _ => t.refreshLine

def setPrompt (prompt : Str) (length : Option ℤ) : Interface :=
  { s with
    prompt
    promptLength := length.getD (((lastLine prompt).getD prompt).length) }

/-! ### Editing -/

def insertString (c : Str) : Interface :=
  if s.cursor < s.line.length then
    { s with
      line := sub s.line 1 s.cursor ++ c ++ subFrom s.line (s.cursor + 1)
      cursor := s.cursor + c.length }.refreshLine
  else
    let t := { s with line := s.line ++ c, cursor := s.cursor + c.length }
    let shown := if t.getCursorPos.map Prod.fst = some 0 then t.refreshLine else t.put [.text c]
    shown.moveCursor (.cells 0)

def wordLeft : Interface :=
  if s.cursor > 0 then
    match wordBefore (sub s.line 1 s.cursor) with
    | some word => s.moveCursor (.cells (-word.length))
    | none => s.raise "attempt to get length of local 'match' (a nil value)".toList
  else s

def wordRight : Interface :=
  if s.cursor < s.line.length then
    match wordAfter (subFrom s.line (s.cursor + 1)) with
    | some word => s.moveCursor (.cells word.length)
    | none => s.raise "attempt to get length of local 'match' (a nil value)".toList
  else s

def deleteLeft : Interface :=
  if s.cursor > 0 ∧ s.line.length > 0 then
    { s with
      line := sub s.line 1 (s.cursor - 1) ++ subFrom s.line (s.cursor + 1)
      cursor := s.cursor - 1 }.refreshLine
  else s

def deleteRight : Interface :=
  { s with line := sub s.line 1 s.cursor ++ subFrom s.line (s.cursor + 2) }.refreshLine

def deleteWordLeft : Interface :=
  if s.cursor > 0 then
    let leading := sub s.line 1 s.cursor
    match wordBefore leading with
    | none => { s with line := [], cursor := 0 }.refreshLine
    | some word =>
      let leading := sub leading 1 (leading.length - word.length)
      { s with
        line := leading ++ subFrom s.line (s.cursor + 1)
        cursor := leading.length }.refreshLine
  else s

def deleteWordRight : Interface :=
  if s.cursor < s.line.length then
    let trailing := subFrom s.line (s.cursor + 1)
    match wordAfter trailing with
    | some word =>
      { s with
        line := sub s.line 1 s.cursor ++ subFrom trailing (word.length + 1) }.refreshLine
    | none => s.raise "attempt to get length of local 'match' (a nil value)".toList
  else s

def deleteLineLeft : Interface :=
  { s with line := subFrom s.line s.cursor, cursor := 0 }.refreshLine

def deleteLineRight : Interface := { s with line := sub s.line 1 s.cursor }.refreshLine

def clearline : Interface :=
  { (s.moveCursor .finish).put [.text crlf] with line := [], cursor := 0, prevRows := some 0 }

/-! ### History -/

/-- `_addHistory`, with the line it returns. -/
def addHistory : Interface × Str :=
  if s.line = [] then (s, [])
  else
    let history := s.line :: s.history
    let history := if history.length > kHistorySize then history.tail else history
    ({ s with history, line := [], historyIndex := -1 }, history.headD [])

/-- `_onLine`. -/
def onLine (line : Str) (frame : Frame) : Interface :=
  if s.hasQuestion then
    ({ s with hasQuestion := false }.setPrompt s.oldPrompt none).call (.answer line) frame
  else s.call (.line line) frame

/-- `_line`. -/
def enterLine (frame : Frame) : Interface :=
  let (t, line) := s.addHistory
  t.clearline.onLine line frame

/-- The line and the cursor of the entry that `historyIndex` names. -/
def showEntry : Interface :=
  let line := s.history.getD s.historyIndex.toNat []
  { s with line, cursor := line.length }.refreshLine

def historyNext : Interface :=
  if s.historyIndex > 0 then { s with historyIndex := s.historyIndex - 1 }.showEntry
  else if s.historyIndex = 0 then
    { s with historyIndex := -1, cursor := 0, line := [] }.refreshLine
  else s

def historyPrev : Interface :=
  if s.historyIndex + 1 < s.history.length then
    { s with historyIndex := s.historyIndex + 1 }.showEntry
  else s

/-! ### Pausing -/

/-- A call of the input, which may raise an error. -/
def onInput (r : ReadStream × Option Str) (next : Interface → Interface) : Interface :=
  match r with
  | (input, some message) => { s with input }.raise message
  | (input, none) => next { s with input }

/-- `pause`, and `next` after it, which is `frame` when the listeners of 'pause' are called. -/
def pauseThen (frame : Frame) (next : Interface → Interface) : Interface :=
  if s.paused then next s
  else s.onInput s.input.pause fun t => { t with paused := true }.call .pause frame

/-- `resume`, likewise. -/
def resumeThen (frame : Frame) (next : Interface → Interface) : Interface :=
  if s.paused then s.onInput s.input.resume fun t => { t with paused := false }.call .resume frame
  else next s

def setRawMode (mode : Bool) (next : Interface → Interface) : Interface :=
  s.onInput (s.input.setRawMode mode) next

def finishClose : Interface := { s with closed := true }.call .close .nothing

def close : Interface :=
  if s.closed then s else s.setRawMode false fun t => t.pauseThen .closing finishClose

def showPrompt (preserveCursor : Bool) : Interface :=
  (if preserveCursor then s else { s with cursor := 0 }).refreshLine

def promptUser (preserveCursor : Bool) : Interface :=
  s.resumeThen (.prompting preserveCursor) fun t => t.showPrompt preserveCursor

/-- `question`, with a callback. -/
def question (query : Str) : Interface :=
  if s.hasQuestion then s.promptUser false
  else ({ { s with oldPrompt := s.prompt }.setPrompt query none with hasQuestion := true }).promptUser
    false

/-! ### Completion -/

def callCompleter : Interface := s.call (.completer (sub s.line 1 s.cursor)) .nothing

def tabComplete : Interface := s.pauseThen .completing callCompleter

/-- The list of several completions, or the loop that does not end when they are wider than the
screen. -/
def listCompletions (completions : List Str) : Interface :=
  let width := (completions.map List.length).foldl max 0 + 2
  let maxColumns := s.columns.map fun columns => columns / width
  let groups := completions.splitOn []
  let t := s.put [.text crlf]
  if maxColumns = some 0 ∧ completions.any (fun c => c ≠ []) then { t with status := .looping }
  else t.put (groups.flatMap fun group => handleGroup group width maxColumns)

/-- The callback of the completer, after `resume`. -/
def apply : Completion → Interface
  | .failed | .nothing | .found [] _ => s
  | .malformed message => s.raise message
  | .found [completion] completeOn =>
    match completeOn with
    | none => s.raise "attempt to get length of local 'completeOn' (a nil value)".toList
    | some n => (s.insertString (subFrom completion (n + 1))).refreshLine
  | .found completions completeOn =>
    let t := s.listCompletions completions
    match t.status, completeOn with
    | .running, none => t.raise "attempt to get length of local 'completeOn' (a nil value)".toList
    | .running, some n =>
      let shared := commonPrefix completions
      (if shared.length > n then t.insertString (subFrom shared (n + 1)) else t).refreshLine
    | _, _ => t

def answer (completion : Completion) : Interface :=
  s.resumeThen (.answering completion) fun t => t.apply completion

/-! ### Keys -/

/-- The end of Ctrl-Z: `process.kill` is not implemented. -/
def stop : Interface := s.setRawMode false fun t => t.raise "not implemented".toList

def finishContinue : Interface := s.setRawMode true refreshLine

/-- The listener of 'SIGCONT' that Ctrl-Z adds. -/
def sigcont : Interface :=
  if s.paused then s.finishContinue
  else s.pauseThen .continuing fun t => t.call .sigcont .continued

def ctrlKey : KeyName → Interface
  | .c => if s.sigintListeners then s.call .sigint .nothing else s.close
  | .h => s.deleteLeft
  | .d =>
    if s.cursor = 0 ∧ s.line.length = 0 then s.close
    else if s.cursor < s.line.length then s.deleteRight
    else s
  | .u => { s with cursor := 0, line := [] }.refreshLine
  | .k => s.deleteLineRight
  | .a => s.moveCursor .start
  | .e => s.moveCursor .finish
  | .b => s.moveCursor (.cells (-1))
  | .f => s.moveCursor (.cells 1)
  | .l => (s.put [.cursorTo (some 0) (some 0), .clearScreenDown]).refreshLine
  | .n => s.historyNext
  | .p => s.historyPrev
  | .z =>
    if s.sigstpListeners then s.call .sigstp .stopping
    else { s with sigcontListeners := s.sigcontListeners + 1 }.stop
  | .w | .backspace => s.deleteWordLeft
  | .delete => s.deleteWordRight
  | .left => s.wordLeft
  | .right => s.wordRight
  | _ => s

def metaKey : KeyName → Interface
  | .b => s.wordLeft
  | .f => s.wordRight
  | .d | .delete => s.deleteWordRight
  | .backspace => s.deleteWordLeft
  | _ => s

/-- The lines of a pasted string, with `_line` between two of them. -/
def paste : List Str → Interface
  | [] => s
  | [line] => s.insertString line
  | line :: rest => (s.insertString line).enterLine (.pasting rest)

def plainKey (text : LuaValue) : KeyName → Interface
  | .enter => s.enterLine .nothing
  | .backspace => s.deleteLeft
  | .delete => s.deleteRight
  | .tab => s.tabComplete
  | .left => s.moveCursor (.cells (-1))
  | .right => s.moveCursor (.cells 1)
  | .home => s.moveCursor .start
  | .endKey => s.moveCursor .finish
  | .up => s.historyPrev
  | .down => s.historyNext
  | _ =>
    match text with
    | .string pasted => s.paste (textLines pasted)
    | .nil | .boolean false => s
    | .table _ => s.raise "attempt to call method 'gmatch' (a nil value)".toList
    | _ => s.raise ("attempt to index local 's' (a ".toList ++ text.typeName ++ " value)".toList)

/-- `_ttyWrite`. -/
def ttyWrite (text : LuaValue) (key : Key) : Interface :=
  if key.name = .escape then s
  else if key.ctrl = true ∧ key.shift = true then
    if key.name = .backspace then s.deleteLineLeft
    else if key.name = .delete then s.deleteLineRight
    else s
  else if key.ctrl then s.ctrlKey key.name
  else if key.isMeta then s.metaKey key.name
  else s.plainKey text key.name

def write (text : LuaValue) (key : Key) : Interface :=
  s.resumeThen (.writing text key) fun t => t.ttyWrite text key

/-! ### Runs -/

/-- What is left to do is done. -/
def proceed : Frame → Interface
  | .nothing => s
  | .writing text key => s.ttyWrite text key
  | .prompting preserveCursor => s.showPrompt preserveCursor
  | .pasting lines => s.paste lines
  | .completing => s.callCompleter
  | .answering completion => s.apply completion
  | .closing => s.finishClose
  | .stopping => s.stop
  | .continuing => s.call .sigcont .continued
  | .continued => s.finishContinue

def returned : Interface :=
  match s.frames with
  | [] => s
  | frame :: frames => { s with frames }.proceed frame

/-- A completed read, or the end of a data event: the loop gets there when no other code runs. -/
def ofLoop : ReadEvent → Bool
  | .completed _ | .delivered | .failed => true
  | _ => false

/-- What happens while no error is being raised. -/
def act : Event → Interface
  | .write text key => s.write text key
  | .keypress text key => s.ttyWrite text key
  | .prompt preserveCursor => s.promptUser preserveCursor
  | .question query => s.question query
  | .setPrompt prompt length => s.setPrompt prompt length
  | .pause => s.pauseThen .nothing id
  | .resume => s.resumeThen .nothing id
  | .close => s.close
  | .answer completion => if s.calls.any isCompleter then s.answer completion else s
  | .resize columns =>
    { s with columns }.raise "attempt to call method '_refreshLine' (a nil value)".toList
  | .listen sigint sigstp => { s with sigintListeners := sigint, sigstpListeners := sigstp }
  | .sigcont =>
    if s.sigcontListeners = 0 then s
    else { s with sigcontListeners := s.sigcontListeners - 1 }.sigcont
  | .input e => if ofLoop e = true ∧ ¬ s.frames.isEmpty then s else { s with input := s.input.step e }
  | .returned => s.returned
  | .threw message => s.raise message
  | .caught _ => s

def step (e : Event) : Interface :=
  match s.status, e with
  | .running, e => s.act e
  | .raised _, .caught calls => { s with frames := s.frames.drop calls, status := .running }
  | _, _ => s

/-- After `__init` with an input that has just been opened. -/
def opened (columns : Option ℕ) : Interface where
  input := (ReadStream.opened.setRawMode true).1.resume.1
  columns
  output := []
  prompt := "> ".toList
  promptLength := 2
  oldPrompt := []
  line := []
  cursor := 0
  history := []
  historyIndex := -1
  prevRows := some 0
  paused := false
  closed := false
  hasQuestion := false
  sigintListeners := false
  sigstpListeners := false
  sigcontListeners := 0
  calls := []
  frames := []
  status := .running

end Interface

end LuaNode.Readline
