import LuaNode.Library.LuaStack

/-!
# The callbacks of the HTTP parser

`luanode_http_parser.cpp` between the vendored `http_parser` and the Lua callbacks, with what it
needs of `lua_runtime.h`, `lua_vm.cpp` and `luanode.cpp`: how a Lua function is called and what an
error that it raises leaves on the stack. What a Lua function does when it is called is given with
each call; the parser is given by the callbacks it runs, which depend on whether it was told to
skip the body. What is logged or written to `stderr` is left out.
-/

namespace LuaNode

/-- What a chunk does that is one call statement: it returns no values. -/
def statement : Option LuaValue → LuaOutcome
  | none => .returns []
  | some error => .raises error

/-- What an error meets: the globals of the Lua state, and the errors that the two chunks raise
that `FatalError` runs. A function `console.error` returns. -/
structure Globals where
  /-- `uncaught_exception_counter` -/
  uncaught : ℕ
  /-- the text that the error handler makes of an error -/
  stacktrace : LuaValue → Str
  console : LuaValue
  /-- the fields of the table `process` -/
  process : List (Str × LuaValue)
  /-- of `process:exit(1)` -/
  exit : Option LuaValue
  /-- of `process:emit('unhandledError', ...)` -/
  emit : Option LuaValue

namespace Globals

variable (g : Globals)

def handler (error : LuaValue) : LuaValue := .string (g.stacktrace error)

def events : LuaValue := (LuaValue.table g.process).field "_events".toList

def listener : LuaValue := g.events.field "unhandledError".toList

/-- The end of `OnError`: the message goes to `console.error`, or to `stderr`. -/
def printError (message : Str) (s : LuaStack) : LuaStack :=
  let s : LuaStack := g.console :: s
  let s : LuaStack :=
    if g.console.isTable then
      let error := g.console.field "error".toList
      let s : LuaStack := error :: s
      if error.isFunction then
        -- `lua_call(L, 2, 0)`
        LuaStack.pop (.string message :: .string "%s".toList :: s) 3
      else s.pop 1
    else s
  s.pop 1

/-- The message of `OnError` for an error that has a stack trace. -/
def errorMessage (s : LuaStack) : Str :=
  match s.top.toString? with
  | some text => text ++ crlf
  | none => "(error object is not a string)".toList

/-- `CLuaRuntime::dostring`, of a chunk that compiles. It is used by `FatalError` only, where the
counter is positive, so that its `OnError` does nothing but print. -/
def dostring (s : LuaStack) (params : ℕ) (chunk : LuaOutcome) : LuaStack :=
  let base := s.gettop - params
  let s := LuaStack.insert (.function :: s) (base + 1)
  let s := LuaStack.insert (.function :: s) (base + 1)
  let r := s.pcall g.handler params chunk
  let s := if r.2 then r.1 else g.printError (errorMessage r.1) r.1
  s.remove (base + 1)

/-- `FatalError`; the answer tells that there is a listener. -/
def fatalError (message : Str) (s : LuaStack) : Bool × LuaStack :=
  let top := s.gettop
  if g.uncaught > 0 then (false, s)
  else
    let s : LuaStack := g.events :: .table g.process :: s
    if ¬ g.events.isTable then (false, g.dostring s 0 (statement g.exit))
    else
      let s : LuaStack := g.listener :: s
      if ¬ g.listener.isNil then
        let s := g.dostring (.string message :: s) 1 (statement g.emit)
        (true, s.settop top)
      else (false, g.dostring s 0 (statement g.exit))

/-- `CLuaVM::OnError` for an error that has a stack trace. -/
def onError (s : LuaStack) : LuaStack :=
  let message := errorMessage s
  let r := g.fatalError message s
  if r.1 then r.2 else g.printError message r.2

/-- `CLuaRuntime::call` with LUA_MULTRET. -/
def call (s : LuaStack) (params : ℕ) (outcome : LuaOutcome) : LuaStack :=
  let base := s.gettop - params
  let s := LuaStack.insert (.function :: s) base
  let r := s.pcall g.handler params outcome
  let s := r.1.remove base
  if r.2 then s else g.onError s

/-- Nobody handles an error, and the attempt to exit leaves a nil on the stack. -/
def Unhandled : Prop :=
  g.uncaught = 0 ∧ (g.events.isNil ∨ g.events.isTable ∧ g.listener.isNil) ∧ g.exit = none

instance : Decidable g.Unhandled :=
  inferInstanceAs (Decidable (_ ∧ (_ ∨ _ ∧ _) ∧ _))

theorem printError_eq (message : Str) (s : LuaStack) : g.printError message s = s := by
  unfold printError
  by_cases hconsole : g.console.isTable
  · simp [hconsole, LuaStack.pop]
  · simp [hconsole, LuaStack.pop]

theorem dostring_eq (args below : LuaStack) (chunk : Option LuaValue) :
    g.dostring (args ++ below) args.length (statement chunk) =
      (chunk.map g.handler).toList ++ below := by
  have hbase : (args ++ below).length - args.length = below.length := by simp
  unfold dostring
  simp only [LuaStack.gettop, hbase, LuaStack.insert_under]
  have hunder := LuaStack.insert_under (args ++ [.function]) below .function
  simp only [List.append_assoc, List.cons_append, List.nil_append] at hunder
  rw [hunder]
  have hpop := LuaStack.pop_above (args ++ [.function]) (.function :: below)
  simp only [List.append_assoc, List.cons_append, List.nil_append, List.length_append,
    List.length_cons, List.length_nil, zero_add] at hpop
  cases chunk with
  | none =>
    simp only [statement, LuaStack.pcall, hpop]
    exact LuaStack.remove_between [] below .function
  | some error =>
    simp only [statement, LuaStack.pcall, hpop, printError_eq]
    exact LuaStack.remove_between [g.handler error] below .function

/-- Where a listener is found the stack is as it was; where there is none, what was looked at
stays there, and the error of `process:exit(1)` over it. -/
theorem onError_cases (s : LuaStack) :
    g.onError s = s ∧ (0 < g.uncaught ∨ g.events.isTable ∧ ¬ g.listener.isNil) ∨
    g.onError s =
        (g.exit.map g.handler).toList ++ (g.events :: .table g.process :: s) ∧
      g.uncaught = 0 ∧ ¬ g.events.isTable ∨
    g.onError s =
        (g.exit.map g.handler).toList ++ (g.listener :: g.events :: .table g.process :: s) ∧
      g.uncaught = 0 ∧ g.events.isTable ∧ g.listener.isNil := by
  have hexit (below : LuaStack) :
      g.dostring below 0 (statement g.exit) = (g.exit.map g.handler).toList ++ below :=
    g.dostring_eq [] below g.exit
  unfold onError fatalError
  by_cases hcount : g.uncaught > 0
  · simp [hcount, printError_eq]
  · have hzero : g.uncaught = 0 := by omega
    by_cases htable : g.events.isTable
    · by_cases hnil : g.listener.isNil
      · simp [hzero, htable, hnil, printError_eq, hexit]
      · left
        have hsettop (message : Str) :
            (g.dostring (.string message :: g.listener :: g.events :: .table g.process :: s) 1
              (statement g.emit)).settop s.gettop = s := by
          have h := g.dostring_eq [.string message]
            (g.listener :: g.events :: .table g.process :: s) g.emit
          simp only [List.cons_append, List.nil_append, List.length_cons, List.length_nil,
            zero_add] at h
          rw [h]
          have hbelow := LuaStack.settop_below ((g.emit.map g.handler).toList ++
            [g.listener, g.events, .table g.process]) s
          simpa [LuaStack.gettop] using hbelow
        simp [hzero, htable, hnil, hsettop]
    · simp [hzero, htable, printError_eq, hexit]

/-- After an error there is a nil on the top only when nobody handles it. -/
theorem onError_top_isNil (error : Str) (s : LuaStack) :
    (g.onError (.string error :: s)).top.isNil = true ↔ g.Unhandled := by
  unfold Unhandled
  rcases g.onError_cases (.string error :: s) with ⟨heq, h⟩ | ⟨heq, hzero, htable⟩ |
    ⟨heq, hzero, htable, hnil⟩
  · rw [heq]
    have hnot : ¬ (g.events.isNil ∧ g.events.isTable) := by
      cases g.events <;> simp [LuaValue.isNil, LuaValue.isTable]
    constructor
    · intro hstring
      simp at hstring
    · rintro ⟨hzero, hlook, -⟩
      rcases h with hpos | ⟨htable, hlistener⟩
      · omega
      · rcases hlook with hnil | ⟨-, hnil⟩
        · exact absurd ⟨hnil, htable⟩ hnot
        · exact absurd hnil hlistener
  · rw [heq]
    cases hexit : g.exit <;> simp [hzero, htable, handler]
  · rw [heq]
    cases hexit : g.exit <;> simp [hzero, htable, hnil, handler]

/-- What `call` makes of the arguments, the function and what lies below it. -/
theorem call_eq (args below : LuaStack) (f : LuaValue) (outcome : LuaOutcome) :
    g.call (args ++ f :: below) args.length outcome =
      match outcome with
      | .returns values => values.reverse ++ below
      | .raises error => g.onError (g.handler error :: below) := by
  have hbase : (args ++ f :: below).length - args.length = below.length + 1 := by
    simp
  have hunder := LuaStack.insert_under (args ++ [f]) below .function
  simp only [List.append_assoc, List.cons_append, List.nil_append] at hunder
  have hpop := LuaStack.pop_above (args ++ [f]) (.function :: below)
  simp only [List.append_assoc, List.cons_append, List.nil_append, List.length_append,
    List.length_cons, List.length_nil, zero_add] at hpop
  unfold call
  simp only [LuaStack.gettop, hbase, hunder]
  cases outcome with
  | returns values =>
    simp only [LuaStack.pcall, hpop, if_true]
    exact LuaStack.remove_between values.reverse below .function
  | raises error =>
    simp only [LuaStack.pcall, hpop]
    have hremove := LuaStack.remove_between [g.handler error] below .function
    simp only [List.cons_append, List.nil_append] at hremove
    simp [hremove]

end Globals

/-- What `on_headers_complete` reads of the parser. -/
structure HeadersInfo where
  request : Bool
  method : Str
  statusCode : ℕ
  httpMajor : ℕ
  httpMinor : ℕ
  shouldKeepAlive : Bool
  upgrade : Bool

/-- The table that `on_headers_complete` passes on. -/
def HeadersInfo.table (info : HeadersInfo) : LuaValue :=
  .table
    [if info.request then ("method".toList, .string info.method)
      else ("statusCode".toList, .number (decimal info.statusCode)),
    ("versionMajor".toList, .number (decimal info.httpMajor)),
    ("versionMinor".toList, .number (decimal info.httpMinor)),
    ("shouldKeepAlive".toList, .boolean info.shouldKeepAlive),
    ("upgrade".toList, .boolean info.upgrade)]

inductive Callback
  | messageBegin
  | url (data : Str)
  | headerField (data : Str)
  | headerValue (data : Str)
  | headersComplete (info : HeadersInfo)
  | body (data : Str)
  | messageComplete

def Callback.isHeadersComplete : Callback → Bool
  | .headersComplete _ => true
  | _ => false

/-- A callback that the parser runs: the field of the Lua object with its name, what that
function does, and what an error meets. -/
structure Turn where
  callback : Callback
  handler : LuaValue
  outcome : LuaOutcome
  globals : Globals

structure Parser where
  stack : LuaStack
  /-- `m_got_exception` -/
  gotException : Bool

namespace Parser

variable (p : Parser) (t : Turn)

/-- The body of all callbacks but one: call the function with the Lua object and the arguments,
if it is there, and look at what is on the top of the stack. -/
def notify (args : List LuaValue) : Parser × ℤ :=
  let s : LuaStack := t.handler :: .userdata :: p.stack
  if t.handler.isFunction then
    let s := t.globals.call (args.reverse ++ .userdata :: s) (args.length + 1) t.outcome
    if s.top.isNil then ({ p with gotException := true, stack := s.settop 0 }, -1)
    else ({ p with stack := s.settop 0 }, 0)
  else ({ p with stack := s.settop 0 }, 0)

/-- The arguments of the callbacks with data: the string, and a slice that is all of it. -/
def dataArgs (data : Str) : List LuaValue :=
  [.string data, .number (decimal 0), .number (decimal data.length)]

def onMessageBegin : Parser × ℤ := p.notify t []

def onUrl (data : Str) : Parser × ℤ :=
  if data.length = 0 then (p, 0) else p.notify t (dataArgs data)

def onHeaderField (data : Str) : Parser × ℤ :=
  if data.length = 0 then (p, 0) else p.notify t (dataArgs data)

def onHeaderValue (data : Str) : Parser × ℤ := p.notify t (dataArgs data)

/-- `on_headers_complete`: the last value that the function returns tells whether to skip the
body. -/
def onHeadersComplete (info : HeadersInfo) : Parser × ℤ :=
  let s : LuaStack := t.handler :: .userdata :: p.stack
  if t.handler.isFunction then
    let s := t.globals.call (info.table :: .userdata :: s) 2 t.outcome
    if s.top.isNil then ({ p with gotException := true, stack := s.settop 0 }, -1)
    else ({ p with stack := s.settop 0 }, if s.top.toBoolean then 1 else 0)
  else ({ p with stack := s.settop 0 }, 0)

def onBody (data : Str) : Parser × ℤ := p.notify t (dataArgs data)

def onMessageComplete : Parser × ℤ := p.notify t []

def step : Parser × ℤ :=
  match t.callback with
  | .messageBegin => p.onMessageBegin t
  | .url data => p.onUrl t data
  | .headerField data => p.onHeaderField t data
  | .headerValue data => p.onHeaderValue t data
  | .headersComplete info => p.onHeadersComplete t info
  | .body data => p.onBody t data
  | .messageComplete => p.onMessageComplete t

end Parser

/-- `on_url` and `on_header_field` return at once for an empty string. -/
def Callback.isEmpty : Callback → Bool
  | .url data => data.length = 0
  | .headerField data => data.length = 0
  | _ => false

/-- The function raised an error, or its last value is a nil. -/
def LuaOutcome.Fails : LuaOutcome → Prop
  | .returns values => values.getLast? = some .nil
  | .raises _ => True

/-- The last value that the function returned is the boolean `b`. -/
def LuaOutcome.Answers (b : Bool) : LuaOutcome → Prop
  | .returns values => values.getLast? = some (.boolean b)
  | .raises _ => False

namespace Turn

variable (t : Turn)

/-- The callback comes to call a Lua function. -/
def Runs : Prop := t.handler.isFunction ∧ ¬ t.callback.isEmpty

def Failed : Prop := t.Runs ∧ t.outcome.Fails

/-- What the value on the top of the stack tells is what the function did: an error is handled
by nobody, and `on_headers_complete` gets a nil or a boolean. -/
def Answerable : Prop :=
  t.Runs →
    match t.outcome with
    | .returns _ =>
      t.callback.isHeadersComplete → t.outcome.Fails ∨ ∃ b, t.outcome.Answers b
    | .raises _ => t.globals.Unhandled

/-- The value on the top of the stack after the call. -/
def result (s : LuaStack) : LuaValue :=
  match t.outcome with
  | .returns values => values.getLast?.getD .userdata
  | .raises error => (t.globals.onError (t.globals.handler error :: .userdata :: s)).top

theorem call_top (args : List LuaValue) (s : LuaStack) :
    LuaStack.top (t.globals.call (args.reverse ++ .userdata :: t.handler :: .userdata :: s)
      (args.length + 1) t.outcome) = t.result s := by
  have h := t.globals.call_eq (args.reverse ++ [.userdata]) (.userdata :: s) t.handler t.outcome
  simp only [List.append_assoc, List.cons_append, List.nil_append, List.length_append,
    List.length_reverse, List.length_cons, List.length_nil, zero_add] at h
  rw [h]
  unfold result
  cases t.outcome with
  | returns values =>
    rcases List.eq_nil_or_concat values with rfl | ⟨init, last, rfl⟩
    · rfl
    · simp
  | raises error => rfl

theorem result_isNil_iff (s : LuaStack) :
    (t.result s).isNil = true ↔
      match t.outcome with
      | .returns _ => t.outcome.Fails
      | .raises _ => t.globals.Unhandled := by
  unfold result
  cases t.outcome with
  | returns values =>
    cases h : values.getLast? <;> simp [LuaOutcome.Fails, h, LuaValue.isNil_iff]
  | raises error => exact t.globals.onError_top_isNil _ _

/-- Only of booleans it is right to ask `lua_toboolean`. -/
theorem result_toBoolean_iff (s : LuaStack) {values : List LuaValue}
    (houtcome : t.outcome = .returns values) (hfails : ¬ t.outcome.Fails) :
    ((t.result s).toBoolean = true → t.outcome.Answers true) ↔ ∃ b, t.outcome.Answers b := by
  unfold result
  rw [houtcome] at hfails ⊢
  simp only [LuaOutcome.Fails, LuaOutcome.Answers] at hfails ⊢
  cases hlast : values.getLast? with
  | none => simp [LuaValue.toBoolean]
  | some v =>
    rw [hlast] at hfails
    cases v <;> simp_all [LuaValue.toBoolean]

end Turn

namespace Parser

variable (p : Parser) (t : Turn)

/-- The callback answers -1, with the flag raised, exactly for a function that failed, and 1 only
where the function asked to skip the body. -/
structure Reports : Prop where
  answer : (p.step t).2 = -1 ↔ t.Failed
  flag : (p.step t).1.gotException = true ↔ p.gotException = true ∨ t.Failed
  skip : (p.step t).2 = 1 → t.callback.isHeadersComplete ∧ t.Runs ∧ t.outcome.Answers true

theorem step_of_not_runs (h : ¬ t.Runs) :
    (p.step t).2 = 0 ∧ (p.step t).1.gotException = p.gotException := by
  have hnotify (args : List LuaValue) (hf : ¬ t.handler.isFunction) :
      (p.notify t args).2 = 0 ∧ (p.notify t args).1.gotException = p.gotException := by
    simp [notify, hf]
  unfold Turn.Runs at h
  unfold step
  cases hcallback : t.callback <;> simp only [hcallback, Callback.isEmpty] at h ⊢
  case url data =>
    by_cases hdata : data.length = 0
    · simp [onUrl, hdata]
    · simpa [onUrl, hdata] using hnotify (dataArgs data) (by simpa [hdata] using h)
  case headerField data =>
    by_cases hdata : data.length = 0
    · simp [onHeaderField, hdata]
    · simpa [onHeaderField, hdata] using hnotify (dataArgs data) (by simpa [hdata] using h)
  case headersComplete info =>
    have hf : ¬ t.handler.isFunction := by simpa using h
    simp [onHeadersComplete, hf]
  all_goals exact hnotify _ (by simpa using h)

theorem step_of_runs (h : t.Runs) :
    p.step t =
      if (t.result p.stack).isNil then ({ stack := [], gotException := true }, -1)
      else ({ p with stack := [] },
        if t.callback.isHeadersComplete ∧ (t.result p.stack).toBoolean then 1 else 0) := by
  obtain ⟨hf, hempty⟩ := h
  have hsettop (s : LuaStack) : s.settop 0 = [] := by simp [LuaStack.settop]
  have hnotify (args : List LuaValue) :
      p.notify t args =
        if (t.result p.stack).isNil then ({ stack := [], gotException := true }, -1)
        else ({ p with stack := [] }, 0) := by
    simp only [notify, hf, if_true, t.call_top args p.stack, hsettop]
  unfold step
  cases hcallback : t.callback <;> simp only [hcallback, Callback.isEmpty] at hempty ⊢
  case headersComplete info =>
    have htop := t.call_top [info.table] p.stack
    simp only [List.reverse_cons, List.reverse_nil, List.nil_append, List.cons_append,
      List.length_cons, List.length_nil, zero_add] at htop
    simp only [onHeadersComplete, hf, if_true, htop, hsettop, Callback.isHeadersComplete, true_and]
  case url data =>
    have hdata : data.length ≠ 0 := by simpa using hempty
    simp [onUrl, hdata, hnotify, Callback.isHeadersComplete]
  case headerField data =>
    have hdata : data.length ≠ 0 := by simpa using hempty
    simp [onHeaderField, hdata, hnotify, Callback.isHeadersComplete]
  all_goals simp [onMessageBegin, onHeaderValue, onBody, onMessageComplete, hnotify,
    Callback.isHeadersComplete]

theorem reports_iff : p.Reports t ↔ t.Answerable := by
  by_cases hruns : t.Runs
  · have hstep := p.step_of_runs t hruns
    have hnil := t.result_isNil_iff p.stack
    cases houtcome : t.outcome with
    | raises error =>
      simp only [houtcome] at hnil
      have hfailed : t.Failed := ⟨hruns, by simp [houtcome, LuaOutcome.Fails]⟩
      constructor
      · intro hreports _
        have hanswer := hreports.answer.mpr hfailed
        rw [hstep] at hanswer
        rw [houtcome]
        by_contra hun
        simp only [hnil, hun, if_false] at hanswer
        split at hanswer <;> omega
      · intro hanswerable
        have hun : t.globals.Unhandled := by simpa [houtcome] using hanswerable hruns
        simp only [hnil, hun, if_true] at hstep
        exact ⟨by simp [hstep, hfailed], by simp [hstep, hfailed], by simp [hstep]⟩
    | returns values =>
      simp only [houtcome] at hnil
      rw [← houtcome] at hnil
      by_cases hfails : t.outcome.Fails
      · have hfailed : t.Failed := ⟨hruns, hfails⟩
        simp only [hnil, hfails, if_true] at hstep
        refine iff_of_true ⟨by simp [hstep, hfailed], by simp [hstep, hfailed],
          by simp [hstep]⟩ ?_
        intro _
        simp only [houtcome]
        exact fun _ => .inl (houtcome ▸ hfails)
      · have hnot : ¬ t.Failed := fun h => hfails h.2
        have hbool := t.result_toBoolean_iff p.stack houtcome hfails
        simp only [hnil, hfails, if_false] at hstep
        constructor
        · intro hreports _
          simp only [houtcome]
          intro hcomplete
          have hskip := hreports.skip
          simp only [hstep, hcomplete, true_and] at hskip
          right
          rw [← houtcome, ← hbool]
          intro htrue
          exact (hskip (by simp [htrue])).2
        · intro hanswerable
          have hanswer := hanswerable hruns
          simp only [houtcome] at hanswer
          rw [← houtcome] at hanswer
          refine ⟨?_, by simp [hstep, hnot], ?_⟩
          · simp only [hstep, hnot, iff_false]
            split <;> omega
          · intro hone
            rw [hstep] at hone
            split at hone
            case isTrue h =>
              have hexists := (hanswer h.1).resolve_left hfails
              exact ⟨h.1, hruns, hbool.mpr hexists h.2⟩
            case isFalse => simp at hone
  · obtain ⟨hzero, hflag⟩ := p.step_of_not_runs t hruns
    have hnot : ¬ t.Failed := fun h => hruns h.1
    refine iff_of_true ⟨by simp [hzero, hnot], by simp [hflag, hnot], by simp [hzero]⟩ ?_
    exact fun h => absurd h hruns

end Parser

/-- The number of bytes that `http_parser_execute` answers, and `m_parser.upgrade`. -/
structure Progress where
  parsed : ℕ
  upgrade : Bool

/-- What `http_parser` makes of some input: the callbacks it runs, each with the progress in case
it is the last one, and what comes next when the body is read or skipped. -/
inductive Script
  | done (progress : Progress)
  | callback (t : Turn) (progress : Progress) (next : Bool → Script)

/-- `http_parser_execute`: a result other than 0 ends it, but for the 1 of
`on_headers_complete`. -/
def Script.run : Script → Parser → Parser × Progress
  | .done progress, p => (p, progress)
  | .callback t progress next, p =>
    let r := p.step t
    if r.2 = 0 then (next false).run r.1
    else if r.2 = 1 ∧ t.callback.isHeadersComplete then (next true).run r.1
    else (r.1, progress)

/-- The callbacks that are run, each with the parser it meets. -/
def Script.trace : Script → Parser → List (Parser × Turn)
  | .done _, _ => []
  | .callback t _ next, p =>
    let r := p.step t
    (p, t) ::
      if r.2 = 0 then (next false).trace r.1
      else if r.2 = 1 ∧ t.callback.isHeadersComplete then (next true).trace r.1
      else []

/-- The values that `Parser::Execute` returns. -/
inductive ExecuteResult
  | nothing
  | parseError (parsed : ℕ)
  | parsed (parsed : ℕ)
  deriving DecidableEq

/-- `Parser::Execute`. -/
def Parser.execute (p : Parser) (len : ℕ) (input : Script) : ExecuteResult :=
  let r := input.run { p with gotException := false }
  if r.1.gotException then .nothing
  else if ¬ r.2.upgrade ∧ r.2.parsed ≠ len then .parseError r.2.parsed
  else .parsed r.2.parsed

namespace Parser

variable (p : Parser) (len : ℕ) (input : Script)

/-- The callbacks that an `Execute` runs. -/
def executed : List (Parser × Turn) := input.trace { p with gotException := false }

/-- Every callback reports what its function did, and `Execute` that one of them failed. -/
structure Faithful : Prop where
  callbacks : ∀ x ∈ p.executed input, x.1.Reports x.2
  failure : p.execute len input = .nothing ↔ ∃ x ∈ p.executed input, x.2.Failed

end Parser

theorem Script.run_gotException (input : Script) (p : Parser)
    (h : ∀ x ∈ input.trace p, x.1.Reports x.2) :
    (input.run p).1.gotException = true ↔
      p.gotException = true ∨ ∃ x ∈ input.trace p, x.2.Failed := by
  induction input generalizing p with
  | done progress => simp [run, trace]
  | callback t progress next ih =>
    rw [trace] at h ⊢
    rw [run]
    have hflag := (h (p, t) List.mem_cons_self).flag
    by_cases hzero : (p.step t).2 = 0
    · simp only [hzero, if_true] at h ⊢
      rw [ih false _ fun x hx => h x (List.mem_cons_of_mem _ hx), hflag]
      simp [or_assoc]
    · by_cases hone : (p.step t).2 = 1 ∧ t.callback.isHeadersComplete
      · simp only [hone, one_ne_zero, if_false, and_self, if_true] at h ⊢
        rw [ih true _ fun x hx => h x (List.mem_cons_of_mem _ hx), hflag]
        simp [or_assoc]
      · simp only [hzero, hone, if_false]
        simp [hflag]

namespace Parser

variable (p : Parser) (len : ℕ) (input : Script)

theorem execute_eq_nothing :
    p.execute len input = .nothing ↔
      (input.run { p with gotException := false }).1.gotException = true := by
  unfold execute
  by_cases h : (input.run { p with gotException := false }).1.gotException = true
  · simp [h]
  · simp only [h]
    split
    · simp_all
    · split <;> simp

/-- An `Execute` is faithful exactly when all errors that it meets are handled by nobody and
`onHeadersComplete` answers with a nil or a boolean. -/
theorem execute_faithful_iff :
    p.Faithful len input ↔ ∀ x ∈ p.executed input, x.2.Answerable := by
  have hturns : (∀ x ∈ p.executed input, x.1.Reports x.2) ↔
      ∀ x ∈ p.executed input, x.2.Answerable :=
    forall₂_congr fun x _ => x.1.reports_iff x.2
  rw [← hturns]
  constructor
  · exact fun h => h.callbacks
  · intro h
    refine ⟨h, ?_⟩
    rw [execute_eq_nothing, input.run_gotException _ h]
    simp [executed]

/-- A response whose `onHeadersComplete` raises while there is an 'unhandledError' listener. -/
def listened : Turn where
  callback := .headersComplete
    { request := false, method := [], statusCode := 200, httpMajor := 1, httpMinor := 1,
      shouldKeepAlive := true, upgrade := false }
  handler := .function
  outcome := .raises (.string "boom".toList)
  globals :=
    { uncaught := 0, stacktrace := fun _ => "boom".toList, console := .table [],
      process := [("_events".toList, .table [("unhandledError".toList, .function)])],
      exit := none, emit := none }

/-- The parser is told to skip the body, and does. -/
theorem listened_skips_body :
    let p : Parser := { stack := [], gotException := false }
    let input : Script := .callback listened ⟨40, false⟩ fun skip =>
      .done ⟨if skip then 42 else 45, false⟩
    listened.Failed ∧ (p.step listened).2 = 1 ∧ p.execute 42 input = .parsed 42 ∧
      ¬ p.Faithful 42 input := by
  have hfailed : listened.Failed := ⟨⟨rfl, by decide⟩, trivial⟩
  have hskip : (Parser.step { stack := [], gotException := false } listened).2 = 1 := by rfl
  have hflag : (Parser.step { stack := [], gotException := false } listened).1.gotException =
      false := by rfl
  intro p input
  have hrun : input.run p = ((p.step listened).1, ⟨42, false⟩) := by
    simp only [input, Script.run, p, hskip]
    rfl
  have hparsed : p.execute 42 input = .parsed 42 := by
    have hp : { p with gotException := false } = p := rfl
    simp only [execute, hp, hrun, p, hflag]
    rfl
  refine ⟨hfailed, hskip, hparsed, fun h => ?_⟩
  have hnothing := h.failure.mpr ⟨(p, listened), List.mem_cons_self, hfailed⟩
  rw [hparsed] at hnothing
  cases hnothing

end Parser

end LuaNode
